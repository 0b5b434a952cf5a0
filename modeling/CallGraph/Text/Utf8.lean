/-!
# UTF-8

Decoding of bytes that may not be UTF-8. Each longest run of bytes that starts a character but
does not complete it counts as one fault, as does each byte that starts none.
-/
namespace CallGraph.Utf8

/-- Whether a byte lies between two bounds, both included. -/
def within (low high byte : UInt8) : Bool := low ≤ byte && byte ≤ high

def isContinuation (byte : UInt8) : Bool := within 0x80 0xBF byte

/-- Whether `second` may follow the first byte of a three-byte character. -/
def startsThree (first second : UInt8) : Bool :=
  (first == 0xE0 && within 0xA0 0xBF second) ||
    (within 0xE1 0xEC first && isContinuation second) ||
    (first == 0xED && within 0x80 0x9F second) ||
    (within 0xEE 0xEF first && isContinuation second)

/-- Whether `second` may follow the first byte of a four-byte character. -/
def startsFour (first second : UInt8) : Bool :=
  (first == 0xF0 && within 0x90 0xBF second) ||
    (within 0xF1 0xF3 first && isContinuation second) ||
    (first == 0xF4 && within 0x80 0x8F second)

/-- The payload of a continuation byte. -/
def payload (byte : UInt8) : Nat := byte.toNat % 64

/-- The characters of a byte sequence, with `none` for each fault. -/
def decode : List UInt8 → List (Option Char)
  | [] => []
  | first :: rest =>
    if first < 0x80 then some (Char.ofNat first.toNat) :: decode rest
    -- Two bytes: 0xC0 and 0xC1 would only spell characters that one byte spells.
    else if within 0xC2 0xDF first then
      match rest with
      | second :: rest' =>
        if isContinuation second then
          some (Char.ofNat (first.toNat % 32 * 64 + payload second)) :: decode rest'
        else none :: decode (second :: rest')
      | [] => [none]
    -- Three bytes: the second one rules out longer spellings and surrogates.
    else if within 0xE0 0xEF first then
      match rest with
      | second :: third :: rest' =>
        if startsThree first second then
          if isContinuation third then
            some (Char.ofNat ((first.toNat % 16 * 64 + payload second) * 64 + payload third)) ::
              decode rest'
          else none :: decode (third :: rest')
        else none :: decode (second :: third :: rest')
      | [second] => if startsThree first second then [none] else none :: decode [second]
      | [] => [none]
    -- Four bytes: the second one rules out longer spellings and what lies beyond 0x10FFFF.
    else if within 0xF0 0xF4 first then
      match rest with
      | second :: rest' =>
        if startsFour first second then
          match rest' with
          | third :: rest'' =>
            if isContinuation third then
              match rest'' with
              | fourth :: rest''' =>
                if isContinuation fourth then
                  some (Char.ofNat (((first.toNat % 8 * 64 + payload second) * 64
                    + payload third) * 64 + payload fourth)) :: decode rest'''
                else none :: decode (fourth :: rest''')
              | [] => [none]
            else none :: decode (third :: rest'')
          | [] => [none]
        else none :: decode (second :: rest')
      | [] => [none]
    else none :: decode rest

/-- The text of a byte sequence, with a replacement character for each fault. -/
def decodeLossy (bytes : List UInt8) : String :=
  String.ofList ((decode bytes).map (·.getD (Char.ofNat 0xFFFD)))

/-- The text of a byte sequence, if it has no fault. -/
def decode? (bytes : List UInt8) : Option String :=
  ((decode bytes).mapM id).map String.ofList

def encode (text : String) : List UInt8 := text.toUTF8.data.toList

end CallGraph.Utf8
