import CallGraph.Json.Value
import CallGraph.Text.Utf8

/-!
# Values on one line

Main result: `newline_notMem_encode_render`. The compact text of a value, and so the bytes of that
text, have no line end in them, whatever texts the value holds: in strings and member names a line
end is escaped, and nothing else in a compact text could be one but a number written with one.
-/
namespace CallGraph

namespace Json

/-- No number in the value is written with a line end. -/
inductive InLine : Json → Prop where
  | null : InLine .null
  | bool {value : Bool} : InLine (.bool value)
  | number {literal : String} (whole : '\n' ∉ literal.toList) : InLine (.number literal)
  | string {text : String} : InLine (.string text)
  | array {items : List Json} (each : ∀ item ∈ items, InLine item) : InLine (.array items)
  | object {members : List (String × Json)} (each : ∀ member ∈ members, InLine member.2) :
    InLine (.object members)

@[simp] theorem inLine_string (text : String) : InLine (.string text) := .string

@[simp] theorem inLine_bool (value : Bool) : InLine (.bool value) := .bool

@[simp] theorem inLine_null : InLine .null := .null

@[simp] theorem inLine_array {items : List Json} :
    InLine (.array items) ↔ ∀ item ∈ items, InLine item :=
  ⟨fun inLine => by cases inLine with | array each => exact each, .array⟩

@[simp] theorem inLine_object {members : List (String × Json)} :
    InLine (.object members) ↔ ∀ member ∈ members, InLine member.2 :=
  ⟨fun inLine => by cases inLine with | object each => exact each, .object⟩

theorem newline_notMem_toString (n : Nat) : '\n' ∉ (toString n).toList := by
  intro member
  have digit : '\n' ∈ Nat.toDigits 10 n := by simpa using member
  cases Nat.isDigit_of_mem_toDigits (by decide) (by decide) digit

@[simp] theorem inLine_ofNat (n : Nat) : InLine (.ofNat n) := .number (newline_notMem_toString n)

@[simp] theorem inLine_ofStrings (texts : List String) : InLine (.ofStrings texts) := by
  simp [ofStrings]

theorem hexDigit_mem (n : Nat) : hexDigit n ∈ "0123456789abcdef".toList := by
  rw [hexDigit, List.getD_eq_getElem?_getD]
  cases found : "0123456789abcdef".toList[n]? with
  | none => decide
  | some digit => exact List.mem_of_getElem? found

theorem hexDigit_ne_newline (n : Nat) : hexDigit n ≠ '\n' := by
  intro same
  have digit : '\n' ∈ "0123456789abcdef".toList := same ▸ hexDigit_mem n
  revert digit
  decide

theorem newline_notMem_escapeChar (c : Char) : '\n' ∉ escapeChar c := by
  unfold escapeChar
  repeat' split
  all_goals simp [(hexDigit_ne_newline _).symm]
  -- What is left is a character that stands for itself, and it is none of those escaped.
  exact Ne.symm ‹_›

theorem newline_notMem_quote (text : String) : '\n' ∉ quote text := by
  simp [quote, newline_notMem_escapeChar]

theorem notMem_itemChars {c : Char} (comma : c ≠ ',') {items : List Json}
    (each : ∀ item ∈ items, c ∉ item.chars) : c ∉ itemChars items := by
  induction items with
  | nil => simp [itemChars]
  | cons item rest ih =>
    rw [List.forall_mem_cons] at each
    cases rest with
    | nil => simpa [itemChars] using each.1
    | cons next rest => simp [itemChars, comma, each.1, ih each.2]

theorem notMem_memberChars {c : Char} (comma : c ≠ ',') (colon : c ≠ ':')
    {members : List (String × Json)}
    (each : ∀ member ∈ members, c ∉ quote member.1 ∧ c ∉ member.2.chars) :
    c ∉ memberChars members := by
  induction members with
  | nil => simp [memberChars]
  | cons member rest ih =>
    obtain ⟨name, value⟩ := member
    rw [List.forall_mem_cons] at each
    cases rest with
    | nil => simp [memberChars, colon, each.1]
    | cons next rest => simp [memberChars, comma, colon, each.1, ih each.2]

theorem newline_notMem_chars {value : Json} (inLine : InLine value) : '\n' ∉ value.chars := by
  induction inLine with
  | null => simp [chars]
  | @bool value => cases value <;> simp [chars]
  | number whole => simpa [chars] using whole
  | string => exact newline_notMem_quote _
  | array _ ih => simp [chars, notMem_itemChars (by decide) ih]
  | object _ ih =>
    have members := notMem_memberChars (by decide) (by decide) fun member inside =>
      ⟨newline_notMem_quote member.1, ih member inside⟩
    simp [chars, members]

end Json

/-! ### Bytes of a text -/

namespace Utf8

theorem encode_ofList (chars : List Char) :
    encode (String.ofList chars) = chars.flatMap String.utf8EncodeChar := by
  simp [encode, List.utf8Encode]

theorem encode_append (front back : String) :
    encode (front ++ back) = encode front ++ encode back := by
  simp [encode]

/-- All bytes of a character that has several are above those of single bytes. -/
theorem eq_newline_of_mem_utf8EncodeChar {c : Char} (member : 10 ∈ String.utf8EncodeChar c) :
    c = '\n' := by
  have code : c.val.toNat = 10 := by
    simp only [String.utf8EncodeChar] at member
    split at member
    · -- A character of one byte is that byte.
      simp only [List.mem_singleton, ← UInt8.toNat_inj, UInt8.toNat_ofNat', UInt8.reduceToNat]
        at member
      omega
    · repeat' split at member
      all_goals
        simp only [List.mem_cons, List.not_mem_nil, or_false, ← UInt8.toNat_inj,
          UInt8.toNat_ofNat', UInt8.reduceToNat] at member
        omega
  exact Char.ext (UInt32.toNat_inj.mp code)

theorem newline_notMem_encode {text : String} (whole : '\n' ∉ text.toList) : 10 ∉ encode text := by
  rw [← String.ofList_toList (s := text), encode_ofList, List.mem_flatMap]
  rintro ⟨c, inside, member⟩
  exact whole (eq_newline_of_mem_utf8EncodeChar member ▸ inside)

end Utf8

theorem Json.newline_notMem_encode_render {value : Json} (inLine : InLine value) :
    10 ∉ Utf8.encode value.render :=
  Utf8.newline_notMem_encode (by simpa [render] using newline_notMem_chars inLine)

end CallGraph
