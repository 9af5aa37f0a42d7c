import Mathlib
import L4Rust.L4.Registers
import L4Rust.Library.Codes
import L4Rust.Library.Machine

open l4.error l4.utcb

namespace l4.ipc

/-- A string in the first bytes of a buffer. -/
structure BufStr where
  target : List UInt8
  len : Nat
  len_le : len ≤ target.length

namespace BufStr

/-- The string is copied to the beginning of the buffer, if it is not too long. -/
def new (target : List UInt8) (input : String) : Except Error BufStr :=
  if (utf8 input).length > target.length then .error (.Generic .MsgTooLong)
  else .ok ⟨utf8 input ++ target.drop (utf8 input).length, (utf8 input).length, by simp⟩

/-- Sets any byte of the buffer. -/
def set (self : BufStr) (i : Nat) (v : UInt8) : Option Unit × BufStr :=
  (self.target[i]?.map fun _ => (), { self with
    target := self.target.set i v
    len_le := by rw [List.length_set]; exact self.len_le })

/-- The bytes that are taken to be a `str`. -/
def as_ref (self : BufStr) : List UInt8 := self.target.take self.len

/-- A buffer with a string in it, and any calls of `set`. -/
def sets (target : List UInt8) (input : String) : Machine BufStr (Nat × UInt8) where
  init s := new target input = .ok s
  allowed _ _ := True
  step s call := some (s.set call.1 call.2).2

end BufStr

/-- The bytes are valid UTF-8: those of some string. -/
def IsUtf8 (bytes : List UInt8) : Prop := ∃ s : String, utf8 s = bytes

/-- The bytes that encode one character. -/
def IsCharacter (bytes : List UInt8) : Prop := ∃ c : Char, bytes = String.utf8EncodeChar c

/-- The byte is behind the string, or the character that it belongs to is a character again once it is
replaced. -/
def KeepsCharacter (self : BufStr) (i : Nat) (v : UInt8) : Prop :=
  self.len ≤ i ∨ ∃ front character back k, self.as_ref = front ++ character ++ back ∧
    IsUtf8 front ∧ IsCharacter character ∧ IsUtf8 back ∧ i = front.length + k ∧ k < character.length ∧
    IsCharacter (character.set k v)

theorem utf8_eq_flatMap (s : String) : utf8 s = s.toList.flatMap String.utf8EncodeChar := by
  have hencode : s.toByteArray = s.toList.utf8Encode := by
    rw [← String.toByteArray_ofList, String.ofList_toList]
  unfold utf8
  rw [hencode, List.utf8Encode, List.toList_data_toByteArray]

theorem isUtf8_iff {bytes : List UInt8} :
    IsUtf8 bytes ↔ ∃ cs : List Char, bytes = cs.flatMap String.utf8EncodeChar := by
  constructor
  · rintro ⟨s, rfl⟩
    exact ⟨s.toList, utf8_eq_flatMap s⟩
  · rintro ⟨cs, rfl⟩
    refine ⟨String.ofList cs, ?_⟩
    rw [utf8_eq_flatMap, String.toList_ofList]

/-- The first byte of a character tells how long its encoding is. -/
theorem utf8Size_of_head {c : Char} {b : UInt8} (h : (String.utf8EncodeChar c).head? = some b) :
    ∃ hb : b.IsUTF8FirstByte, c.utf8Size = b.utf8ByteSize hb := by
  have hdecode := ByteArray.utf8DecodeChar?_utf8EncodeChar_append (b := .empty) (c := c)
  rw [ByteArray.append_empty] at hdecode
  have hsome : ((String.utf8EncodeChar c).toByteArray.utf8DecodeChar? 0).isSome := by
    rw [hdecode]
    rfl
  have hchar : (String.utf8EncodeChar c).toByteArray.utf8DecodeChar 0 hsome = c := by
    simp only [ByteArray.utf8DecodeChar, hdecode, Option.get_some]
  have hsize := ByteArray.utf8Size_utf8DecodeChar (h := hsome)
  rw [hchar] at hsize
  have hlt : 0 < (String.utf8EncodeChar c).toByteArray.size := ByteArray.lt_size_of_isSome_utf8DecodeChar? hsome
  have hbyte : (String.utf8EncodeChar c).toByteArray[0] = b := by
    rw [List.head?_eq_getElem?, List.getElem?_eq_some_iff] at h
    obtain ⟨_, hget⟩ := h
    rw [← hget, List.getElem_toByteArray]
  subst hbyte
  exact ⟨_, hsize⟩

theorem utf8EncodeChar_ne_nil (c : Char) : String.utf8EncodeChar c ≠ [] := by
  rw [← List.length_pos_iff, String.length_utf8EncodeChar]
  exact c.utf8Size_pos

theorem utf8EncodeChar_selfDelimiting :
    Codes.SelfDelimiting String.utf8EncodeChar UInt8.IsUTF8FirstByte where
  ne_nil := utf8EncodeChar_ne_nil
  start_iff c i b hb := by
    obtain ⟨hi, rfl⟩ := List.getElem?_eq_some_iff.mp hb
    exact UInt8.isUTF8FirstByte_getElem_utf8EncodeChar
  length_eq c d hhead := by
    obtain ⟨b, rest, hc⟩ := List.exists_cons_of_ne_nil (utf8EncodeChar_ne_nil c)
    have hb : (String.utf8EncodeChar c).head? = some b := by rw [hc]; rfl
    obtain ⟨_, hsize⟩ := utf8Size_of_head hb
    obtain ⟨_, hsize'⟩ := utf8Size_of_head (hhead.symm.trans hb)
    rw [String.length_utf8EncodeChar, String.length_utf8EncodeChar, hsize, hsize']

theorem IsUtf8.append {bytes bytes' : List UInt8} (h : IsUtf8 bytes) (h' : IsUtf8 bytes') :
    IsUtf8 (bytes ++ bytes') := by
  obtain ⟨cs, rfl⟩ := isUtf8_iff.mp h
  obtain ⟨cs', rfl⟩ := isUtf8_iff.mp h'
  exact isUtf8_iff.mpr ⟨cs ++ cs', List.flatMap_append.symm⟩

theorem IsCharacter.isUtf8 {bytes : List UInt8} (h : IsCharacter bytes) : IsUtf8 bytes := by
  obtain ⟨c, rfl⟩ := h
  exact isUtf8_iff.mpr ⟨[c], (List.flatMap_singleton _ c).symm⟩

namespace BufStr

theorem as_ref_set (self : BufStr) (i : Nat) (v : UInt8) :
    (self.set i v).2.as_ref = self.as_ref.set i v := List.take_set ..

theorem length_as_ref (self : BufStr) : self.as_ref.length = self.len := by
  rw [as_ref, List.length_take, Nat.min_eq_left self.len_le]

/-- A call keeps the string valid exactly when it keeps the character that it writes to. -/
theorem set_isUtf8_iff {self : BufStr} (h : IsUtf8 self.as_ref) (i : Nat) (v : UInt8) :
    IsUtf8 (self.set i v).2.as_ref ↔ KeepsCharacter self i v := by
  rw [as_ref_set]
  constructor
  · intro hset
    by_cases hi : self.len ≤ i
    · exact .inl hi
    obtain ⟨cs, hcs⟩ := isUtf8_iff.mp h
    have hlt : i < (cs.flatMap String.utf8EncodeChar).length := by
      rw [← hcs, length_as_ref]
      omega
    obtain ⟨front, c, back, k, rfl, rfl, hk⟩ := Codes.exists_word hlt
    rw [List.flatMap_append, List.flatMap_cons] at hcs
    rw [hcs, List.set_append_right _ _ (Nat.le_add_right _ _), Nat.add_sub_cancel_left,
      List.set_append_left _ _ hk] at hset
    have hchar := (utf8EncodeChar_selfDelimiting.set_iff front c k v back).mp (isUtf8_iff.mp hset)
    refine .inr ⟨_, String.utf8EncodeChar c, _, k, ?_, isUtf8_iff.mpr ⟨front, rfl⟩, ⟨c, rfl⟩,
      isUtf8_iff.mpr ⟨back, rfl⟩, rfl, hk, hchar⟩
    rw [hcs, List.append_assoc]
  · rintro (hi | ⟨front, character, back, k, hsplit, hfront, -, hback, rfl, hk, hchar⟩)
    · rw [List.set_eq_of_length_le (by rwa [length_as_ref])]
      exact h
    · rw [hsplit, List.append_assoc, List.set_append_right _ _ (Nat.le_add_right _ _),
        Nat.add_sub_cancel_left, List.set_append_left _ _ hk]
      exact hfront.append (hchar.isUtf8.append hback)

/-- A new string is the one it was made from. -/
theorem as_ref_of_new {target : List UInt8} {input : String} {self : BufStr}
    (h : new target input = .ok self) : self.as_ref = utf8 input := by
  unfold new at h
  split at h
  · cases h
  · cases h
    exact List.take_left

end BufStr

/-- The bytes that are taken to be a string are valid UTF-8 throughout a run exactly when every call
of `set` in it keeps the character that it writes to. -/
theorem buf_str_valid_iff (target : List UInt8) (input : String) (past : List (BufStr × (Nat × UInt8)))
    (s : BufStr) (hrun : (BufStr.sets target input).Run past s) :
    (∀ new, BufStr.new target input = .ok new → new.as_ref = utf8 input) ∧
    ((IsUtf8 s.as_ref ∧ ∀ p ∈ past, IsUtf8 p.1.as_ref) ↔ ∀ p ∈ past, KeepsCharacter p.1 p.2.1 p.2.2) := by
  refine ⟨fun _ => BufStr.as_ref_of_new, ?_⟩
  apply hrun.throughout_iff (I := fun _ => True) (Q := fun s call => KeepsCharacter s call.1 call.2)
  · intro s hinit
    exact ⟨trivial, input, (BufStr.as_ref_of_new hinit).symm⟩
  · intro s call t _ _ _
    trivial
  · intro s call t _ hvalid _ hstep
    cases hstep
    exact BufStr.set_isUtf8_iff hvalid call.1 call.2

/-- A buffer of three bytes with "ab" in it. -/
def twoLetters : BufStr := ⟨[0x61, 0x62, 0], 2, by decide⟩

/-- A letter may be replaced by another one. -/
theorem letter_replaced :
    IsUtf8 twoLetters.as_ref ∧ IsUtf8 (twoLetters.set 1 0x7a).2.as_ref := by
  have hrun : (BufStr.sets [0, 0, 0] "ab").Run [(twoLetters, 1, 0x7a)] (twoLetters.set 1 0x7a).2 :=
    .call (.start rfl) trivial rfl
  have hiff := (buf_str_valid_iff [0, 0, 0] "ab" _ _ hrun).2
  have hvalid := hiff.mpr <| by
    intro p hp
    rw [List.mem_singleton.mp hp]
    refine .inr ⟨[0x61], [0x62], [], 0, rfl, ⟨"a", rfl⟩, ⟨'b', by decide⟩, ⟨"", rfl⟩, rfl, by decide, 'z', ?_⟩
    decide
  exact ⟨hvalid.2 _ (List.mem_singleton_self _), hvalid.1⟩

/-- A byte that is in no encoding can be written as well. -/
theorem invalid_byte_set :
    BufStr.new [0, 0, 0] "ab" = .ok twoLetters ∧ ¬ IsUtf8 (twoLetters.set 0 0xff).2.as_ref := by
  refine ⟨rfl, fun h => ?_⟩
  obtain ⟨cs, hcs⟩ := isUtf8_iff.mp h
  have hhead : (cs.flatMap String.utf8EncodeChar).head? = some 0xff := by
    rw [← hcs]
    rfl
  exact absurd (utf8EncodeChar_selfDelimiting.start_of_head hhead) (by decide)

end l4.ipc
