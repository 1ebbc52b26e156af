import Mathlib.Data.List.Basic
import ResourceComposition.Text.Base64

/-!
# Bytes, written in base 64 and read

Bytes that are written in base 64 are read as the same bytes (`Base64.decode_encode`), of whatever
number: three bytes make four symbols of six bits each, and what is left at the end is filled up with
zero bits and with padding, as the strict reader wants it.

A notation consists of ASCII characters, so its bytes as a text are its characters one by one
(`Bytes.ofString_ofList`).
-/

namespace ResourceComposition

namespace Bytes

theorem toList_loop (array : ByteArray) (i : Nat) (taken : List UInt8) :
    ByteArray.toList.loop array i taken = taken.reverse ++ array.data.toList.drop i := by
  fun_induction ByteArray.toList.loop array i taken with
  | case1 i taken hlt ih =>
    have hlt' : i < array.data.toList.length := by simpa using hlt
    have hget : array.get! i = array.data.toList[i] := getElem!_pos array.data i (by simpa using hlt)
    rw [ih, List.drop_eq_getElem_cons hlt', hget]
    simp
  | case2 i taken hge =>
    have hge' : array.data.toList.length ≤ i := by simpa using hge
    rw [List.drop_eq_nil_of_le hge', List.append_nil]

/-- The byte of an ASCII character. -/
def ofAscii (c : Char) : UInt8 := UInt8.ofNat c.toNat

/-- A text of ASCII characters has a byte for each of them. -/
theorem ofString_ofList {cs : List Char} (h : ∀ c ∈ cs, c.toNat < 128) :
    ofString (String.ofList cs) = cs.map ofAscii := by
  have hlist : ofString (String.ofList cs) = cs.flatMap String.utf8EncodeChar := by
    rw [ofString, String.toUTF8, String.toByteArray_ofList, List.utf8Encode, ByteArray.toList,
      toList_loop, List.toList_data_toByteArray]
    rfl
  rw [hlist, List.map_eq_flatMap]
  refine List.flatMap_congr fun c hc => ?_
  have hc : c.val.toNat ≤ 127 := Nat.le_of_lt_succ (h c hc)
  rw [String.utf8EncodeChar, if_pos hc, ofAscii, Char.toNat]

end Bytes

namespace Base64

open Bytes

variable {a b c d offset : Nat}

/-! ### Symbols -/

/-- The byte of the symbol of a value. -/
def symbolByte (value : Nat) : UInt8 := ofAscii (symbol value)

theorem symbol_read : ∀ value < 64, (symbol value).toNat < 128 ∧
    value? (symbolByte value) = some value ∧ symbolByte value ≠ pad := by
  decide +kernel

theorem valueAt_symbolByte (ha : a < 64) (offset : Nat) :
    valueAt offset (symbolByte a) = .ok a := by
  rw [valueAt, (symbol_read a ha).2.1]

theorem symbolByte_ne_pad (ha : a < 64) : symbolByte a ≠ pad := (symbol_read a ha).2.2

/-! ### Quads -/

/-- The parts of three bytes that go to the four symbols of a quad fit them. -/
theorem sextets_lt (a b c : UInt8) : a.toNat / 4 < 64 ∧ a.toNat % 4 * 16 + b.toNat / 16 < 64 ∧
    b.toNat % 16 * 4 + c.toNat / 64 < 64 ∧ c.toNat % 64 < 64 := by
  have ha := a.toNat_lt
  have hb := b.toNat_lt
  have hc := c.toNat_lt
  omega

/-- Three bytes are those of the four symbols that they are written as. -/
theorem quad_sextets (a b c : UInt8) :
    quad (a.toNat / 4) (a.toNat % 4 * 16 + b.toNat / 16) (b.toNat % 16 * 4 + c.toNat / 64)
      (c.toNat % 64) = [a, b, c] := by
  have ha := a.toNat_lt
  have hb := b.toNat_lt
  have hc := c.toNat_lt
  have hfirst : a.toNat / 4 * 4 + (a.toNat % 4 * 16 + b.toNat / 16) / 16 = a.toNat := by omega
  have hsecond : (a.toNat % 4 * 16 + b.toNat / 16) % 16 * 16 +
      (b.toNat % 16 * 4 + c.toNat / 64) / 4 = b.toNat := by omega
  have hthird : (b.toNat % 16 * 4 + c.toNat / 64) % 4 * 64 + c.toNat % 64 = c.toNat := by omega
  rw [quad, hfirst, hsecond, hthird, UInt8.ofNat_toNat, UInt8.ofNat_toNat, UInt8.ofNat_toNat]

theorem decodeLast_two (ha : a < 64) (hb : b < 64) (hzero : b % 16 = 0) :
    decodeLast offset [symbolByte a, symbolByte b, pad, pad] = .ok ((quad a b 0 0).take 1) := by
  simp [decodeLast, valuesAt, valueAt_symbolByte, symbolByte_ne_pad, ha, hb, hzero, bind,
    Except.bind, pure, Except.pure]

theorem decodeLast_three (ha : a < 64) (hb : b < 64) (hc : c < 64) (hzero : c % 4 = 0) :
    decodeLast offset [symbolByte a, symbolByte b, symbolByte c, pad] =
      .ok ((quad a b c 0).take 2) := by
  simp [decodeLast, valuesAt, valueAt_symbolByte, symbolByte_ne_pad, ha, hb, hc, hzero, bind,
    Except.bind, pure, Except.pure]

theorem decodeLast_four (ha : a < 64) (hb : b < 64) (hc : c < 64) (hd : d < 64) :
    decodeLast offset [symbolByte a, symbolByte b, symbolByte c, symbolByte d] =
      .ok (quad a b c d) := by
  simp [decodeLast, valuesAt, valueAt_symbolByte, symbolByte_ne_pad, ha, hb, hc, hd, bind,
    Except.bind, pure, Except.pure]

/-- A full quad is read, whether or not it is the last. -/
theorem decodeFrom_four {rest bytes : Bytes} (ha : a < 64) (hb : b < 64) (hc : c < 64) (hd : d < 64)
    (hrest : decodeFrom (offset + 4) rest = .ok bytes) :
    decodeFrom offset (symbolByte a :: symbolByte b :: symbolByte c :: symbolByte d :: rest) =
      .ok (quad a b c d ++ bytes) := by
  cases rest with
  | nil =>
    obtain rfl : [] = bytes := Except.ok.inj hrest
    rw [List.append_nil]
    exact decodeLast_four ha hb hc hd
  | cons e rest =>
    rw [decodeFrom]
    simp [valueAt_symbolByte, ha, hb, hc, hd, hrest, bind, Except.bind, pure, Except.pure]

/-! ### Notations -/

theorem encodeChars_ascii (bytes : Bytes) : ∀ c ∈ encodeChars bytes, c.toNat < 128 := by
  induction bytes using encodeChars.induct with
  | case1 => exact nofun
  | case2 a =>
    obtain ⟨hfirst, hsecond, -, -⟩ := sextets_lt a 0 0
    rw [encodeChars]
    simp only [List.forall_mem_cons, List.not_mem_nil, false_imp_iff, forall_const, and_true]
    exact ⟨(symbol_read _ hfirst).1, (symbol_read _ hsecond).1, by decide, by decide⟩
  | case3 a b =>
    obtain ⟨hfirst, hsecond, hthird, -⟩ := sextets_lt a b 0
    rw [encodeChars]
    simp only [List.forall_mem_cons, List.not_mem_nil, false_imp_iff, forall_const, and_true]
    exact ⟨(symbol_read _ hfirst).1, (symbol_read _ hsecond).1, (symbol_read _ hthird).1, by decide⟩
  | case4 a b c rest ih =>
    obtain ⟨hfirst, hsecond, hthird, hfourth⟩ := sextets_lt a b c
    rw [encodeChars]
    simp only [List.forall_mem_cons]
    exact ⟨(symbol_read _ hfirst).1, (symbol_read _ hsecond).1, (symbol_read _ hthird).1,
      (symbol_read _ hfourth).1, ih⟩

theorem length_encodeChars (bytes : Bytes) : (encodeChars bytes).length % 4 = 0 := by
  induction bytes using encodeChars.induct with
  | case1 | case2 | case3 => simp [encodeChars]
  | case4 a b c rest ih =>
    simp only [encodeChars, List.length_cons]
    omega

theorem decodeFrom_encodeChars (bytes : Bytes) (offset : Nat) :
    decodeFrom offset ((encodeChars bytes).map ofAscii) = .ok bytes := by
  induction bytes using encodeChars.induct generalizing offset with
  | case1 => rfl
  | case2 a =>
    -- What is missing of the quad is written as if it were zero.
    obtain ⟨hfirst, hsecond, -, -⟩ := sextets_lt a 0 0
    calc decodeFrom offset ((encodeChars [a]).map ofAscii)
      _ = .ok ((quad (a.toNat / 4) (a.toNat % 4 * 16) 0 0).take 1) :=
        decodeLast_two hfirst hsecond (by omega)
      _ = .ok ([a, 0, 0].take 1) := congrArg (Except.ok ∘ List.take 1) (quad_sextets a 0 0)
  | case3 a b =>
    obtain ⟨hfirst, hsecond, hthird, -⟩ := sextets_lt a b 0
    calc decodeFrom offset ((encodeChars [a, b]).map ofAscii)
      _ = .ok ((quad (a.toNat / 4) (a.toNat % 4 * 16 + b.toNat / 16) (b.toNat % 16 * 4) 0).take 2) :=
        decodeLast_three hfirst hsecond hthird (by omega)
      _ = .ok ([a, b, 0].take 2) := congrArg (Except.ok ∘ List.take 2) (quad_sextets a b 0)
  | case4 a b c rest ih =>
    obtain ⟨hfirst, hsecond, hthird, hfourth⟩ := sextets_lt a b c
    refine (decodeFrom_four hfirst hsecond hthird hfourth (ih (offset + 4))).trans ?_
    rw [quad_sextets]
    rfl

/-- Bytes are read as they were written. -/
theorem decode_encode (bytes : Bytes) : decode (encode bytes) = .ok bytes := by
  have hlength : ((encodeChars bytes).map ofAscii).length % 4 ≠ 1 := by
    simp [length_encodeChars]
  rw [decode, encode, ofString_ofList (encodeChars_ascii bytes), decodeBytes, if_neg hlength]
  exact decodeFrom_encodeChars bytes 0

end Base64

end ResourceComposition
