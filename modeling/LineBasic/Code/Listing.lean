import LineBasic.Code.CodeUnit

/-!
# Listings

Flat code as text: one instruction a line, with its index before it and its comment after it. A
marker stands before the first instruction of each line of the program.
-/

namespace LineBasic

/-- A number with at least four digits. -/
def fourDigits (n : Nat) : String :=
  let digits := toString n
  String.ofList (List.replicate (4 - digits.length) '0') ++ digits

namespace CodeUnit

/-- An instruction in a listing, after a marker if a line starts there. -/
def entryText (u : CodeUnit) (index : Nat) (i : Instruction) : String :=
  let marker :=
    match u.lineMap.lineAt? index with
    | some line => "; line " ++ toString line ++ "\n"
    | none => ""
  let remark :=
    match i.comment with
    | some c => "  ; " ++ c.text
    | none => ""
  marker ++ fourDigits index ++ "  " ++ i.text ++ remark ++ "\n"

/-- The code as text, one instruction a line, with a marker where a line of the program starts. -/
def listing (u : CodeUnit) : String :=
  String.join (u.code.toList.zipIdx.map fun (i, index) => u.entryText index i)

end CodeUnit

end LineBasic
