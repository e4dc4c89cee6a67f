import Mathlib.Data.List.Basic
import ScriptBundler.Text.Base64
import ScriptBundler.Text.Blank

/-!
# Base 64 there and back

What has been encoded is decoded again (`decode_encode`). All groups of three bytes but the last are four symbols each,
from which the bytes are joined again (`exists_full`), and the last one to three bytes are read with their filling
(`exists_ending`).
-/

namespace ScriptBundler.Text.Base64

variable {bytes front last full ending : List UInt8} {start index n : Nat}

/-! ### Symbols -/

private theorem symbol_facts : ∀ n < 64, value? (symbol n) = some n ∧ symbol n ≠ filling ∧ (symbol n).toNat < 128 ∧
    isBlank (Char.ofNat (symbol n).toNat) = false := by decide

private theorem value?_symbol (h : n < 64) : value? (symbol n) = some n := (symbol_facts n h).1

private theorem symbol_ne_filling (h : n < 64) : symbol n ≠ filling := (symbol_facts n h).2.1

/-- All that is written are symbols and filling. -/
private theorem eq_of_mem_encodeBytes {b : UInt8} (h : b ∈ encodeBytes bytes) :
    b = filling ∨ ∃ n < 64, b = symbol n := by
  induction bytes using encodeBytes.induct with
  | case1 x y z rest ih =>
    have hx := x.toNat_lt
    have hy := y.toNat_lt
    have hz := z.toNat_lt
    simp only [encodeBytes, List.mem_cons] at h
    rcases h with h | h | h | h | h
    · exact .inr ⟨_, by omega, h⟩
    · exact .inr ⟨_, by omega, h⟩
    · exact .inr ⟨_, by omega, h⟩
    · exact .inr ⟨_, by omega, h⟩
    · exact ih h
  | case2 x y =>
    have hx := x.toNat_lt
    have hy := y.toNat_lt
    simp only [encodeBytes, List.mem_cons, List.not_mem_nil, or_false] at h
    rcases h with h | h | h | h
    · exact .inr ⟨_, by omega, h⟩
    · exact .inr ⟨_, by omega, h⟩
    · exact .inr ⟨_, by omega, h⟩
    · exact .inl h
  | case3 x =>
    have hx := x.toNat_lt
    simp only [encodeBytes, List.mem_cons, List.not_mem_nil, or_false] at h
    rcases h with h | h | h | h
    · exact .inr ⟨_, by omega, h⟩
    · exact .inr ⟨_, by omega, h⟩
    · exact .inl h
    · exact .inl h
  | case4 => cases h

/-! ### Full groups -/

private theorem encodeBytes_append (h : front.length % 3 = 0) (last : List UInt8) :
    encodeBytes (front ++ last) = encodeBytes front ++ encodeBytes last := by
  induction front using encodeBytes.induct with
  | case1 x y z rest ih =>
    have hrest : rest.length % 3 = 0 := by
      simp only [List.length_cons] at h
      omega
    simp [encodeBytes, ih hrest]
  | case2 => simp at h
  | case3 => simp at h
  | case4 => rfl

private theorem values_symbols {ns : List Nat} (h : ∀ n ∈ ns, n < 64) (offset : Nat) :
    values offset (ns.map symbol) = .ok ns := by
  induction ns generalizing offset with
  | nil => rfl
  | cons n ns ih =>
    rw [List.forall_mem_cons] at h
    rw [List.map_cons, values, value?_symbol h.1, ih h.2]
    rfl

/-- Full groups are symbols only, and the bytes are joined from their numbers. -/
theorem exists_full (front : List UInt8) (h : front.length % 3 = 0) : ∃ ns : List Nat, encodeBytes front = ns.map symbol ∧
    (∀ n ∈ ns, n < 64) ∧ ns.length % 4 = 0 ∧ joinGroups ns = front := by
  induction front using encodeBytes.induct with
  | case1 x y z rest ih =>
    have hrest : rest.length % 3 = 0 := by
      simp only [List.length_cons] at h
      omega
    obtain ⟨ns, e, small, groups, joined⟩ := ih hrest
    let n := x.toNat * 65536 + y.toNat * 256 + z.toNat
    have hx := x.toNat_lt
    have hy := y.toNat_lt
    have hz := z.toNat_lt
    have join_eq : n / 262144 * 262144 + n / 4096 % 64 * 4096 + n / 64 % 64 * 64 + n % 64 = n := by omega
    have first : n / 65536 = x.toNat := by omega
    have second : n / 256 % 256 = y.toNat := by omega
    have third : n % 256 = z.toNat := by omega
    refine ⟨n / 262144 :: n / 4096 % 64 :: n / 64 % 64 :: n % 64 :: ns, ?_, ?_, ?_, ?_⟩
    · rw [encodeBytes, e]
      rfl
    · simp only [List.forall_mem_cons]
      exact ⟨by omega, by omega, by omega, by omega, small⟩
    · simp only [List.length_cons]
      omega
    · rw [joinGroups, joined, join_eq, first, second, third]
      simp
  | case2 => simp at h
  | case3 => simp at h
  | case4 => exact ⟨[], rfl, by simp, rfl, rfl⟩

/-! ### The last group -/

private theorem readEnding_symbol {e : Ending} (h : n < 64) (unfilled : e.fillings = 0) (rest : List UInt8) :
    readEnding start e index (symbol n :: rest) =
      readEnding start { e with numbers := e.numbers ++ [n], lastSymbol := symbol n } (index + 1) rest := by
  rw [readEnding, if_neg (symbol_ne_filling h), if_neg (by omega), value?_symbol h]

private theorem readEnding_filling (start : Nat) (e : Ending) (h : 2 ≤ index) (rest : List UInt8) :
    ∃ place, readEnding start e index (filling :: rest) =
      readEnding start { e with fillingAt := place, fillings := e.fillings + 1 } (index + 1) rest := by
  rw [readEnding, if_pos rfl, if_neg (by omega)]
  split
  · exact ⟨_, rfl⟩
  · exact ⟨_, rfl⟩

/-- The last group gives back its bytes, and nothing of its bits is left. -/
theorem exists_ending (last : List UInt8) (hne : last ≠ []) (short : last.length ≤ 3) (start : Nat) : ∃ e : Ending,
    readEnding start {} 0 (encodeBytes last) = .ok e ∧ (encodeBytes last).length = 4 ∧ 2 ≤ e.numbers.length ∧
      (e.numbers.length + e.fillings) % 4 = 0 ∧ endingBytes e.numbers = (last, 0) := by
  match last, hne, short with
  | [x], _, _ =>
    have hx := x.toNat_lt
    have byte_eq : x.toNat / 4 * 4 + x.toNat % 4 * 16 / 16 = x.toNat := by omega
    have left_eq : x.toNat % 4 * 16 % 16 = 0 := by omega
    rw [encodeBytes, readEnding_symbol (by omega) rfl, readEnding_symbol (by omega) rfl]
    obtain ⟨i, e₁⟩ := readEnding_filling start ⟨[x.toNat / 4, x.toNat % 4 * 16], 0, 0, symbol (x.toNat % 4 * 16)⟩
      (Nat.le_refl 2) [filling]
    obtain ⟨j, e₂⟩ := readEnding_filling start ⟨[x.toNat / 4, x.toNat % 4 * 16], i, 1, symbol (x.toNat % 4 * 16)⟩
      (Nat.le_succ 2) []
    refine ⟨_, e₁.trans e₂, rfl, by simp, by simp, ?_⟩
    rw [endingBytes, byte_eq, left_eq]
    simp
  | [x, y], _, _ =>
    have hx := x.toNat_lt
    have hy := y.toNat_lt
    let n := x.toNat * 256 + y.toNat
    have first : n / 1024 * 4 + n / 16 % 64 / 16 = x.toNat := by omega
    have second : n / 16 % 64 % 16 * 16 + n % 16 * 4 / 4 = y.toNat := by omega
    have left_eq : n % 16 * 4 % 4 = 0 := by omega
    rw [encodeBytes, readEnding_symbol (by omega) rfl, readEnding_symbol (by omega) rfl,
      readEnding_symbol (by omega) rfl]
    obtain ⟨i, e⟩ := readEnding_filling start ⟨[n / 1024, n / 16 % 64, n % 16 * 4], 0, 0, symbol (n % 16 * 4)⟩
      (Nat.le_succ 2) []
    refine ⟨_, e, rfl, by simp, by simp, ?_⟩
    rw [endingBytes, first, second, left_eq]
    simp
  | [x, y, z], _, _ =>
    obtain ⟨ns, e, small, -, joined⟩ := exists_full [x, y, z] (by simp)
    have four : ns.length = 4 := by
      have h := congrArg List.length e
      rw [List.length_map] at h
      exact h.symm
    match ns, four with
    | [a, b, c, d], _ =>
      simp only [List.forall_mem_cons] at small
      obtain ⟨ha, hb, hc, hd, -⟩ := small
      rw [e]
      simp only [List.map_cons, List.map_nil]
      rw [readEnding_symbol ha rfl, readEnding_symbol hb rfl, readEnding_symbol hc rfl, readEnding_symbol hd rfl]
      exact ⟨_, rfl, rfl, by simp, by simp, by rw [← joined]; rfl⟩

/-! ### Whole texts -/

/-- Full groups and a last group are decoded together. -/
private theorem decodeBytes_append {ns : List Nat} {e : Ending} (hf : full.length % 4 = 0) (he : ending.length = 4)
    (values_eq : values 0 full = .ok ns) (read : readEnding full.length {} 0 ending = .ok e)
    (two : 2 ≤ e.numbers.length) (filled : (e.numbers.length + e.fillings) % 4 = 0)
    (bytes_eq : endingBytes e.numbers = (last, 0)) : decodeBytes (full ++ ending) = .ok (joinGroups ns ++ last) := by
  have length_eq : (full ++ ending).length = full.length + 4 := by rw [List.length_append, he]
  have excess : (full.length + 4) % 4 = 0 := by omega
  have nonempty : (full ++ ending).isEmpty = false := by
    rw [List.isEmpty_eq_false_iff, ← List.length_pos_iff, length_eq]
    omega
  unfold decodeBytes
  simp only [length_eq, excess, if_pos, Nat.add_sub_cancel, List.take_left', List.drop_left', values_eq, read, nonempty,
    bind, Except.bind]
  rw [if_neg (by simp), if_neg (by omega), if_neg (by simpa using filled), bytes_eq]
  rfl

private theorem decodeBytes_encodeBytes (bytes : List UInt8) : decodeBytes (encodeBytes bytes) = .ok bytes := by
  by_cases hne : bytes = []
  · rw [hne]
    rfl
  · have positive := List.length_pos_iff.2 hne
    -- one to three bytes are left for the last group
    let k := (bytes.length - 1) / 3 * 3
    have front_length : (bytes.take k).length = k := by
      rw [List.length_take]
      omega
    have last_length : (bytes.drop k).length = bytes.length - k := List.length_drop
    obtain ⟨ns, e, small, groups, joined⟩ := exists_full (bytes.take k) (by omega)
    obtain ⟨ending, read, four, two, filled, bytes_eq⟩ :=
      exists_ending (bytes.drop k) (List.ne_nil_of_length_pos (by omega)) (by omega) (ns.map symbol).length
    rw [← List.take_append_drop k bytes, encodeBytes_append (by omega), e,
      decodeBytes_append (by rwa [List.length_map]) four (values_symbols small 0) read two filled bytes_eq, joined]

/-! ### Characters -/

private theorem toList_loop (bs : ByteArray) (i : Nat) (r : List UInt8) :
    ByteArray.toList.loop bs i r = r.reverse ++ bs.data.toList.drop i := by
  fun_induction ByteArray.toList.loop bs i r with
  | case1 i r h ih =>
    have hi : i < bs.data.toList.length := h
    have get_eq : bs.get! i = bs.data.toList[i] := by
      show bs.data[i]! = _
      rw [getElem!_pos bs.data i h, Array.getElem_toList]
    rw [ih, List.drop_eq_getElem_cons hi, get_eq]
    simp
  | case2 i r h =>
    have hi : bs.data.toList.length ≤ i := Nat.le_of_not_lt h
    rw [List.drop_eq_nil_of_le hi, List.append_nil]

private theorem toList_eq (bs : ByteArray) : bs.toList = bs.data.toList := by
  rw [ByteArray.toList, toList_loop]
  rfl

private theorem utf8EncodeChar_ofNat : ∀ n < 128, String.utf8EncodeChar (Char.ofNat n) = [UInt8.ofNat n] := by decide

/-- Bytes of the basic alphabet are the bytes of their text. -/
private theorem toUTF8_ofList {bs : List UInt8} (h : ∀ b ∈ bs, b.toNat < 128) :
    (String.ofList (bs.map fun b => Char.ofNat b.toNat)).toUTF8.toList = bs := by
  have encoded : (bs.map fun b => Char.ofNat b.toNat).flatMap String.utf8EncodeChar = bs := by
    induction bs with
    | nil => rfl
    | cons b bs ih =>
      rw [List.forall_mem_cons] at h
      rw [List.map_cons, List.flatMap_cons, utf8EncodeChar_ofNat _ h.1, ih h.2, UInt8.ofNat_toNat]
      rfl
  rw [String.toUTF8_eq_toByteArray, String.toByteArray_ofList, List.utf8Encode, encoded, toList_eq]
  simp

/-- What is encoded is decoded again. -/
theorem decode_encode (bytes : ByteArray) : decode (encode bytes) = .ok bytes := by
  have ascii : ∀ b ∈ encodeBytes bytes.toList, b.toNat < 128 := by
    intro b hb
    rcases eq_of_mem_encodeBytes hb with rfl | ⟨n, hn, rfl⟩
    · decide
    · exact (symbol_facts n hn).2.2.1
  rw [decode, encode, toUTF8_ofList ascii, decodeBytes_encodeBytes, toList_eq]
  rfl

/-- There is no white space in a text that has been encoded. -/
theorem not_isBlank_of_mem_encode {bytes : ByteArray} {c : Char} (h : c ∈ (encode bytes).toList) : isBlank c = false := by
  rw [encode, String.toList_ofList] at h
  obtain ⟨b, hb, rfl⟩ := List.mem_map.1 h
  rcases eq_of_mem_encodeBytes hb with rfl | ⟨n, hn, rfl⟩
  · decide
  · exact (symbol_facts n hn).2.2.2

end ScriptBundler.Text.Base64
