import Signalium.Lib.Paths

/-!
# File names of attachments

`sanitizeFilename` of `internal/service/send_message.go`.  A file name comes from
the header of a part, so it is any sequence of bytes.  The regular expression
matches one rune at a time: a valid UTF-8 sequence is one rune, and every byte
that does not begin one is a rune of its own.
-/

namespace Signalium

/-- The bytes of a name. -/
def nameBytes (name : String) : List UInt8 := name.toList.flatMap String.utf8EncodeChar

/-- `filepath.Base` on Unix. -/
def base {α : Type} [DecidableEq α] (sep dot : α) (path : List α) : List α :=
  if path = [] then [dot]
  else
    let last := ((path.reverse.dropWhile (· = sep)).takeWhile (· ≠ sep)).reverse
    if last = [] then [sep] else last

/-- A continuation byte of UTF-8. -/
def isContinuation (b : UInt8) : Bool := 0x80 ≤ b && b ≤ 0xBF

/-- The range of the second byte after a first byte of a sequence. -/
def secondRange (b : UInt8) : UInt8 × UInt8 :=
  if b = 0xE0 then (0xA0, 0xBF)
  else if b = 0xED then (0x80, 0x9F)
  else if b = 0xF0 then (0x90, 0xBF)
  else if b = 0xF4 then (0x80, 0x8F)
  else (0x80, 0xBF)

/-- The number of bytes after `b` that belong to the same rune. -/
def runeRest (b : UInt8) (bs : List UInt8) : Nat :=
  let need := if 0xC2 ≤ b && b ≤ 0xDF then 1 else if 0xE0 ≤ b && b ≤ 0xEF then 2
    else if 0xF0 ≤ b && b ≤ 0xF4 then 3 else 0
  match bs.take need with
  | c :: cs =>
      if cs.length + 1 = need && (secondRange b).1 ≤ c && c ≤ (secondRange b).2 &&
          cs.all isContinuation then need
      else 0
  | [] => 0

/-- The characters `[A-Za-z0-9._-]`. -/
def filenameAllowed (b : UInt8) : Bool :=
  (0x41 ≤ b && b ≤ 0x5A) || (0x61 ≤ b && b ≤ 0x7A) || (0x30 ≤ b && b ≤ 0x39) ||
    b = 0x2E || b = 0x5F || b = 0x2D

/-- `ReplaceAllString(s, "_")`, where the next `skip` bytes belong to a rune that
has been replaced. -/
def replaceRunes : Nat → List UInt8 → List Char
  | _, [] => []
  | skip + 1, _ :: bs => replaceRunes skip bs
  | 0, b :: bs =>
      if filenameAllowed b then Char.ofNat b.toNat :: replaceRunes 0 bs
      else '_' :: replaceRunes (runeRest b bs) bs
termination_by structural _ bs => bs

/-- `sanitizeFilename`, with the empty string for a rejected name. -/
def sanitizeFilename (raw : List UInt8) : String :=
  let name := base 0x2F 0x2E raw
  if name = [0x2E] || name = [0x2F] then ""
  else
    match replaceRunes 0 name with
    | '.' :: _ => ""
    | cleaned => String.ofList cleaned

-- `../a b.txt`
example : sanitizeFilename [0x2E, 0x2E, 0x2F, 0x61, 0x20, 0x62, 0x2E, 0x74, 0x78, 0x74] =
    "a_b.txt" := by
  decide

/-! ## What is known of a sanitized name -/

/-- `filepath.Base` of a path that ends in a name, with nothing or a separator before
it. -/
theorem base_of_reverse {α : Type} [DecidableEq α] {sep dot : α} {path name rest : List α}
    (hpath : path.reverse = name.reverse ++ rest) (hrest : ∀ x ∈ rest.head?, x = sep)
    (hne : name ≠ []) (hsep : sep ∉ name) : base sep dot path = name := by
  have hsep' : ∀ x ∈ name.reverse, x ≠ sep := fun x hx h => hsep (h ▸ List.mem_reverse.mp hx)
  have hdrop : (name.reverse ++ rest).dropWhile (· = sep) = name.reverse ++ rest := by
    cases hn : name.reverse with
    | nil => exact absurd (List.reverse_eq_nil_iff.mp hn) hne
    | cons x xs =>
        have hx : x ≠ sep := hsep' x (hn ▸ List.mem_cons_self)
        simp [hx]
  have htake : (name.reverse ++ rest).takeWhile (· ≠ sep) = name.reverse := by
    rw [List.takeWhile_append_of_pos (by simpa using hsep')]
    cases rest with
    | nil => simp
    | cons x xs => simp [hrest x rfl]
  have hpath' : path ≠ [] := by
    rintro rfl
    exact hne (List.reverse_eq_nil_iff.mp (List.append_eq_nil_iff.mp hpath.symm).1)
  simp only [base, hpath, hdrop, htake, List.reverse_reverse, hne, hpath', if_false]

theorem base_append {α : Type} [DecidableEq α] {sep dot : α} {dir name : List α}
    (hne : name ≠ []) (hsep : sep ∉ name) : base sep dot (dir ++ sep :: name) = name := by
  have hpath : (dir ++ sep :: name).reverse = name.reverse ++ sep :: dir.reverse := by simp
  exact base_of_reverse hpath (by simp) hne hsep

theorem base_name {α : Type} [DecidableEq α] {sep dot : α} {name : List α} (hne : name ≠ [])
    (hsep : sep ∉ name) : base sep dot name = name :=
  base_of_reverse (List.append_nil _).symm (by simp) hne hsep

/-- Characters below the surrogates are their numbers. -/
theorem toNat_ofNat_of_lt {n : Nat} (h : n < 0xD800) : (Char.ofNat n).toNat = n := by
  have hv : n.isValidChar := Or.inl h
  rw [Char.ofNat, dif_pos hv]
  rfl

/-- A byte as a character. -/
theorem toNat_ofNat_byte (b : UInt8) : (Char.ofNat b.toNat).toNat = b.toNat := by
  have hlt := b.toNat_lt
  exact toNat_ofNat_of_lt (by omega)

/-- What the replacement leaves are allowed bytes, each as a character. -/
theorem replaceRunes_eq (skip : Nat) (bs : List UInt8) :
    ∃ ns : List UInt8, (∀ b ∈ ns, filenameAllowed b = true) ∧
      replaceRunes skip bs = ns.map fun b => Char.ofNat b.toNat := by
  induction bs generalizing skip with
  | nil => exact ⟨[], by simp, by simp [replaceRunes]⟩
  | cons b bs ih =>
      cases skip with
      | succ skip => exact ih skip
      | zero =>
          rw [replaceRunes]
          by_cases hb : filenameAllowed b = true
          · obtain ⟨ns, hns, heq⟩ := ih 0
            exact ⟨b :: ns, by simpa [hb] using hns, by rw [if_pos hb, heq]; rfl⟩
          · obtain ⟨ns, hns, heq⟩ := ih (runeRest b bs)
            refine ⟨0x5F :: ns, ?_, by rw [if_neg hb, heq]; rfl⟩
            intro b' hb'
            rcases List.mem_cons.mp hb' with rfl | hb'
            · decide
            · exact hns b' hb'

/-- The replacement leaves no separator. -/
theorem slash_not_mem_replaceRunes (skip : Nat) (bs : List UInt8) :
    '/' ∉ replaceRunes skip bs := by
  obtain ⟨ns, hns, heq⟩ := replaceRunes_eq skip bs
  rw [heq, List.mem_map]
  rintro ⟨b, hb, h⟩
  have hnat := congrArg Char.toNat h
  rw [toNat_ofNat_byte] at hnat
  cases UInt8.toNat_inj.mp (show b.toNat = (0x2F : UInt8).toNat from hnat)
  exact absurd (hns _ hb) (by decide)

/-- The three reasons for which a name is rejected. -/
theorem sanitizeFilename_cases (raw : List UInt8) :
    sanitizeFilename raw =
      if base 0x2F 0x2E raw = [0x2E] ∨ base 0x2F 0x2E raw = [0x2F] ∨
          (replaceRunes 0 (base 0x2F 0x2E raw)).head? = some '.' then ""
      else String.ofList (replaceRunes 0 (base 0x2F 0x2E raw)) := by
  unfold sanitizeFilename
  generalize base 0x2F 0x2E raw = name
  by_cases hname : name = [0x2E] ∨ name = [0x2F]
  · rw [if_pos (by simpa using hname), if_pos (by tauto)]
  · rw [if_neg (by simpa using hname)]
    generalize replaceRunes 0 name = cleaned
    split
    · rw [if_pos (by simp)]
    · next hdot =>
        have hhead : cleaned.head? ≠ some '.' := by
          cases cleaned with
          | nil => simp
          | cons c cs => exact fun h => hdot cs (by rw [Option.some.inj h])
        rw [if_neg (by tauto)]

/-- A name that is not rejected names an entry of a directory. -/
theorem sanitizeFilename_isName {raw : List UInt8} (h : sanitizeFilename raw ≠ "") :
    Paths.IsName (sanitizeFilename raw).toList := by
  have hslash := slash_not_mem_replaceRunes 0 (base 0x2F 0x2E raw)
  rw [sanitizeFilename_cases] at h ⊢
  split_ifs at h ⊢ with hrej
  · exact absurd rfl h
  · have hdot : (replaceRunes 0 (base 0x2F 0x2E raw)).head? ≠ some '.' :=
      fun hc => hrej (Or.inr (Or.inr hc))
    rw [String.toList_ofList]
    refine ⟨?_, hslash, fun hc => hdot (by rw [hc]; rfl), fun hc => hdot (by rw [hc]; rfl)⟩
    intro hnil
    rw [hnil] at h
    exact h rfl

end Signalium
