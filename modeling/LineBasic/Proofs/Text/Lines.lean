import LineBasic.Text.Blank
import LineBasic.Text.Bytes
import Mathlib.Data.List.Induction

/-!
# Lines of bytes

Input is cut into lines at its line feeds. A line feed is one byte, and the bytes of no other
character have this value, so that a line of bytes is a line of text.

* `Text.flatten_splitLines`, `Text.isLine_of_mem_splitLines`: the lines of a stream make up the
  stream, and only the last byte of each can be a line feed;
* `Text.ten_mem_encode_iff`: the bytes of a text have a line feed if the text has;
* `Text.newline_not_mem_trimBreaks`: a line that is read as text has no line feed once the breaks at
  its end are taken away.
-/

namespace LineBasic.Text

/-! ### Cutting bytes into lines -/

lemma firstLine_append_afterLine (bytes : List UInt8) :
    firstLine bytes ++ afterLine bytes = bytes := by
  induction bytes with
  | nil => rfl
  | cons b bytes ih =>
    rw [firstLine, afterLine]
    split
    · rfl
    · rw [List.cons_append, ih]

/-- No byte is lost when a stream is cut into lines. -/
lemma flatten_splitLines (bytes : List UInt8) : (splitLines bytes).flatten = bytes := by
  fun_induction splitLines bytes with
  | case1 => rfl
  | case2 b bytes ih => rw [List.flatten_cons, ih, firstLine_append_afterLine]

/-- Only the last byte of a line can be a line feed. -/
def IsLine (line : List UInt8) : Prop := 10 ∉ line.dropLast

lemma isLine_firstLine (bytes : List UInt8) : IsLine (firstLine bytes) := by
  induction bytes with
  | nil => exact List.not_mem_nil
  | cons b bytes ih =>
    rw [firstLine]
    split
    next => exact List.not_mem_nil
    next hb =>
      rw [IsLine] at ih ⊢
      cases hrest : firstLine bytes with
      | nil => exact List.not_mem_nil
      | cons c rest =>
        rw [hrest] at ih
        rw [List.dropLast_cons_cons, List.mem_cons, not_or]
        exact ⟨fun h => hb (beq_iff_eq.mpr h.symm), ih⟩

lemma isLine_of_mem_splitLines {bytes : List UInt8} : ∀ line ∈ splitLines bytes, IsLine line := by
  fun_induction splitLines bytes with
  | case1 => exact List.forall_mem_nil _
  | case2 b bytes ih => exact List.forall_mem_cons.mpr ⟨isLine_firstLine _, ih⟩

/-! ### Texts as bytes -/

/-- The bytes of a list of characters. -/
def encode (cs : List Char) : List UInt8 := cs.flatMap String.utf8EncodeChar

lemma toUTF8_eq (s : String) : s.toUTF8 = (encode s.toList).toByteArray :=
  String.utf8Encode_toList.symm

lemma encode_concat (cs : List Char) (c : Char) :
    encode (cs ++ [c]) = encode cs ++ String.utf8EncodeChar c := by
  rw [encode, List.flatMap_append, List.flatMap_singleton]
  rfl

/-- A text and a line feed after it, as bytes. -/
lemma toUTF8_append_newline (s : String) :
    (s ++ "\n").toUTF8 = (encode s.toList ++ [10]).toByteArray := by
  have hnewline : "\n".toList = ['\n'] := rfl
  rw [toUTF8_eq, String.toList_append, hnewline, encode_concat]
  rfl

/-- The bytes of a character outside the first 128 are not among the first 128. -/
lemma le_of_mem_utf8EncodeChar {c : Char} (hc : 127 < c.val.toNat) :
    ∀ b ∈ String.utf8EncodeChar c, 128 ≤ b.toNat := by
  have hhigh {k : Nat} (hlow : 128 ≤ k) (hk : k < 256) : 128 ≤ (UInt8.ofNat k).toNat := by
    rwa [UInt8.toNat_ofNat_of_lt' hk]
  rw [String.utf8EncodeChar, if_neg (by omega)]
  split
  · simp only [List.forall_mem_cons]
    exact ⟨hhigh (by omega) (by omega), hhigh (by omega) (by omega), List.forall_mem_nil _⟩
  · split
    · simp only [List.forall_mem_cons]
      exact ⟨hhigh (by omega) (by omega), hhigh (by omega) (by omega), hhigh (by omega) (by omega),
        List.forall_mem_nil _⟩
    · simp only [List.forall_mem_cons]
      exact ⟨hhigh (by omega) (by omega), hhigh (by omega) (by omega), hhigh (by omega) (by omega),
        hhigh (by omega) (by omega), List.forall_mem_nil _⟩

/-- A line feed is the only character that has a byte of its value. -/
lemma ten_mem_utf8EncodeChar_iff {c : Char} : 10 ∈ String.utf8EncodeChar c ↔ c = '\n' := by
  constructor
  · intro h
    by_cases hc : c.val.toNat ≤ 127
    · rw [String.utf8EncodeChar, if_pos hc, List.mem_singleton, ← UInt8.toNat_inj,
        UInt8.toNat_ofNat_of_lt' (Nat.lt_of_le_of_lt hc (by decide))] at h
      exact Char.val_inj.mp (UInt32.toNat_inj.mp h.symm)
    · exact absurd (le_of_mem_utf8EncodeChar (by omega) 10 h) (by decide)
  · rintro rfl
    decide

/-- The bytes of a text have a line feed if the text has. -/
lemma ten_mem_encode_iff {cs : List Char} : 10 ∈ encode cs ↔ '\n' ∈ cs := by
  simp only [encode, List.mem_flatMap, ten_mem_utf8EncodeChar_iff, exists_eq_right]

/-- Bytes that are read as a text are the bytes of this text. -/
lemma encode_of_ofBytes? {line : List UInt8} {text : String} (h : ofBytes? line = some text) :
    encode text.toList = line := by
  rw [ofBytes?, String.fromUTF8?] at h
  split at h
  next hvalid =>
    cases h
    have hbytes : (String.fromUTF8 ⟨line.toArray⟩ hvalid).toUTF8 = ⟨line.toArray⟩ := rfl
    rw [toUTF8_eq] at hbytes
    have hlist := congrArg (fun b : ByteArray => b.data.toList) hbytes
    simpa using hlist
  next => cases h

/-- If only the last byte of a line is a line feed, so is at most its last character. -/
lemma newline_not_mem_dropLast {cs : List Char} (h : IsLine (encode cs)) : '\n' ∉ cs.dropLast := by
  cases cs using List.reverseRecOn with
  | nil => exact List.not_mem_nil
  | append_singleton init c =>
    rw [IsLine, encode_concat, List.dropLast_append_of_ne_nil String.utf8EncodeChar_ne_nil] at h
    rw [List.dropLast_concat, ← ten_mem_encode_iff]
    exact fun hmem => h (List.mem_append_left _ hmem)

/-- A line that is read as text has no line feed once the breaks at its end are taken away. -/
lemma newline_not_mem_trimBreaks {line : List UInt8} {text : String} (hline : IsLine line)
    (h : ofBytes? line = some text) : '\n' ∉ trimBreaks text.toList := by
  rw [← encode_of_ofBytes? h] at hline
  have hinit := newline_not_mem_dropLast hline
  rw [trimBreaks, dropEnd, List.mem_reverse]
  generalize text.toList = cs at hinit
  cases cs using List.reverseRecOn with
  | nil => exact List.not_mem_nil
  | append_singleton init c =>
    rw [List.dropLast_concat] at hinit
    rw [List.reverse_concat, List.dropWhile_cons]
    split
    · exact fun hmem => hinit (List.mem_reverse.mp ((List.dropWhile_sublist _).mem hmem))
    next hbreak =>
      rw [List.mem_cons, List.mem_reverse, not_or]
      refine ⟨fun hc => hbreak ?_, hinit⟩
      rw [← hc]
      rfl

end LineBasic.Text
