import Signalium.Storage.ObjectStore

/-!
# File names stay in the directory of their message

The name of an attachment is hostile input.  It is processed twice: the service
sanitizes it and stores the object under `uuid/name`, and later, on another
host, the worker takes `filepath.Base` of the key and joins it to the directory
of the message.

What `sanitizeFilename` lets through is a sequence of allowed bytes that does
not begin with a dot (`sanitizeFilename_eq`).  Such a sequence is its own
sanitized name, has no separator and is neither `.` nor `..`, so `Base` gives it
back and the path is an entry of the directory (`filename_confined`).
-/

namespace Signalium

/-- The characters `A-Z`, `a-z`, `0-9`, dot, underscore and hyphen. -/
def FilenameChar (c : Char) : Prop :=
  ('A' ≤ c ∧ c ≤ 'Z') ∨ ('a' ≤ c ∧ c ≤ 'z') ∨ ('0' ≤ c ∧ c ≤ '9') ∨ c = '.' ∨ c = '_' ∨ c = '-'

/-- A sanitized name as bytes: allowed ones, at least one, and no dot in front. -/
structure PlainName (ns : List UInt8) : Prop where
  ne_nil : ns ≠ []
  allowed : ∀ b ∈ ns, filenameAllowed b = true
  no_dot : ns.head? ≠ some 0x2E

/-! ## Allowed bytes -/

section Bytes

variable {b : UInt8}

theorem filenameAllowed_iff : filenameAllowed b = true ↔
    (0x41 ≤ b.toNat ∧ b.toNat ≤ 0x5A) ∨ (0x61 ≤ b.toNat ∧ b.toNat ≤ 0x7A) ∨
    (0x30 ≤ b.toNat ∧ b.toNat ≤ 0x39) ∨ b = 0x2E ∨ b = 0x5F ∨ b = 0x2D := by
  simp [filenameAllowed, UInt8.le_iff_toNat_le, or_assoc]

theorem filenameChar_of_allowed (h : filenameAllowed b = true) :
    FilenameChar (Char.ofNat b.toNat) := by
  have hchar : ∀ {lo hi : Char}, lo.toNat ≤ b.toNat → b.toNat ≤ hi.toNat →
      lo ≤ Char.ofNat b.toNat ∧ Char.ofNat b.toNat ≤ hi := by
    intro lo hi hlo hhi
    rw [← toNat_ofNat_byte b] at hlo hhi
    exact ⟨hlo, hhi⟩
  rcases filenameAllowed_iff.mp h with h | h | h | rfl | rfl | rfl
  · exact Or.inl (hchar h.1 h.2)
  · exact Or.inr (Or.inl (hchar h.1 h.2))
  · exact Or.inr (Or.inr (Or.inl (hchar h.1 h.2)))
  · exact Or.inr (Or.inr (Or.inr (Or.inl rfl)))
  · exact Or.inr (Or.inr (Or.inr (Or.inr (Or.inl rfl))))
  · exact Or.inr (Or.inr (Or.inr (Or.inr (Or.inr rfl))))

/-- An allowed byte is its own encoding. -/
theorem utf8EncodeChar_of_allowed (h : filenameAllowed b = true) :
    String.utf8EncodeChar (Char.ofNat b.toNat) = [b] := by
  have hlt : b.toNat ≤ 127 := by
    rcases filenameAllowed_iff.mp h with h | h | h | rfl | rfl | rfl <;> first | omega | decide
  have hval : (Char.ofNat b.toNat).val.toNat = b.toNat := toNat_ofNat_byte b
  rw [String.utf8EncodeChar.eq_1, hval, if_pos hlt, UInt8.ofNat_toNat]

end Bytes

/-! ## Sanitized names -/

section Names

variable {ns : List UInt8}

theorem nameBytes_of_allowed (h : ∀ b ∈ ns, filenameAllowed b = true) :
    nameBytes (String.ofList (ns.map fun b => Char.ofNat b.toNat)) = ns := by
  rw [nameBytes, String.toList_ofList]
  induction ns with
  | nil => rfl
  | cons b ns ih =>
      rw [List.map_cons, List.flatMap_cons, utf8EncodeChar_of_allowed (h b List.mem_cons_self),
        ih fun b' hb' => h b' (List.mem_cons_of_mem b hb')]
      rfl

theorem replaceRunes_of_allowed (h : ∀ b ∈ ns, filenameAllowed b = true) :
    replaceRunes 0 ns = ns.map fun b => Char.ofNat b.toNat := by
  induction ns with
  | nil => rfl
  | cons b ns ih =>
      rw [replaceRunes, if_pos (h b List.mem_cons_self),
        ih fun b' hb' => h b' (List.mem_cons_of_mem b hb')]
      rfl

/-- A dot is the character of its own byte only. -/
theorem head_ne_dot (h : ns.head? ≠ some 0x2E) :
    (ns.map fun b => Char.ofNat b.toNat).head? ≠ some '.' := by
  rw [List.head?_map]
  intro hc
  obtain ⟨b, hb, hdot⟩ := Option.map_eq_some_iff.mp hc
  have hnat := congrArg Char.toNat hdot
  rw [toNat_ofNat_byte] at hnat
  rw [hb, UInt8.toNat_inj.mp (show b.toNat = (0x2E : UInt8).toNat from hnat)] at h
  exact h rfl

/-- A plain name is its own sanitized name. -/
theorem PlainName.sanitizeFilename_self (h : PlainName ns) :
    sanitizeFilename ns = String.ofList (ns.map fun b => Char.ofNat b.toNat) := by
  have hslash : 0x2F ∉ ns := fun hmem => absurd (h.allowed _ hmem) (by decide)
  rw [sanitizeFilename_cases, base_name h.ne_nil hslash, replaceRunes_of_allowed h.allowed, if_neg]
  rintro (hc | hc | hc)
  · exact h.no_dot (by rw [hc]; rfl)
  · exact hslash (by rw [hc]; exact List.mem_singleton_self _)
  · exact head_ne_dot h.no_dot hc

/-- What `sanitizeFilename` returns: nothing, or a plain name. -/
theorem sanitizeFilename_eq {raw : List UInt8} (h : sanitizeFilename raw ≠ "") :
    ∃ ns, PlainName ns ∧
      sanitizeFilename raw = String.ofList (ns.map fun b => Char.ofNat b.toNat) := by
  obtain ⟨ns, hns, heq⟩ := replaceRunes_eq 0 (base 0x2F 0x2E raw)
  rw [sanitizeFilename_cases, heq] at h ⊢
  split_ifs at h ⊢ with hrej
  · exact absurd rfl h
  · refine ⟨ns, ⟨?_, hns, ?_⟩, rfl⟩
    · rintro rfl
      exact h rfl
    · intro hdot
      refine hrej (Or.inr (Or.inr ?_))
      rw [List.head?_map, hdot]
      rfl

end Names

/-! ## Confinement -/

/-- What holds of a name that is not rejected, wherever its object is stored and
downloaded. -/
structure ConfinedName (name : String) : Prop where
  ne_empty : name ≠ ""
  chars : ∀ c ∈ name.toList, FilenameChar c
  no_dot : name.toList.head? ≠ some '.'
  /-- Sanitized again, it stays. -/
  stable : sanitizeFilename (nameBytes name) = name
  base_key : ∀ (bucket : String) (id : UUID), (ObjectRef.mk bucket (id ++ "/" ++ name)).base = name
  /-- The path `downloadOne` writes is an entry of the directory of the message. -/
  child : ∀ (tmpDir bucket : String) (id messageID : UUID),
    Paths.IsChild (Paths.join [tmpDir.toList, messageID.toList])
      (localPath tmpDir messageID (ObjectRef.mk bucket (id ++ "/" ++ name)).base).toList

/-- **File names are confined.**  For every byte string, `sanitizeFilename` rejects it
or returns a confined name. -/
theorem filename_confined (raw : List UInt8) :
    sanitizeFilename raw = "" ∨ ConfinedName (sanitizeFilename raw) := by
  by_cases h : sanitizeFilename raw = ""
  · exact Or.inl h
  · have hname := sanitizeFilename_isName h
    have hbase := ObjectRef.base_of_name hname
    obtain ⟨ns, hns, heq⟩ := sanitizeFilename_eq h
    refine Or.inr ⟨h, ?_, ?_, ?_, hbase, fun tmpDir bucket id messageID => ?_⟩
    · rw [heq, String.toList_ofList]
      intro c hc
      obtain ⟨b, hb, rfl⟩ := List.mem_map.mp hc
      exact filenameChar_of_allowed (hns.allowed b hb)
    · rw [heq, String.toList_ofList]
      exact head_ne_dot hns.no_dot
    · rw [heq, nameBytes_of_allowed hns.allowed, hns.sanitizeFilename_self]
    · rw [hbase bucket id, localPath, String.toList_ofList]
      exact Paths.join_isChild _ hname

end Signalium
