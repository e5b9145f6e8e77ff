/-
Purpose: JavaScript's `trim` and `toUpperCase` on texts without lone surrogates, and the
  codes of capital letters and digits, which they leave as they are.
Trusted boundary: none
-/
import Mathlib.Data.Bool.AllAny
import Mathlib.Data.List.Basic

namespace HelixKit.Backend.JsText

/-- The white space and the line ends that `trim` takes off. -/
def isWhiteSpace (c : Char) : Bool :=
  c.toNat ∈ [0x09, 0x0A, 0x0B, 0x0C, 0x0D, 0x20, 0xA0, 0x1680, 0x2028, 0x2029, 0x202F, 0x205F,
    0x3000, 0xFEFF] || (0x2000 ≤ c.toNat && c.toNat ≤ 0x200A)

def trim (s : String) : String :=
  .ofList ((s.toList.dropWhile isWhiteSpace).reverse.dropWhile isWhiteSpace).reverse

/-- The characters outside ASCII whose upper case has ASCII characters. -/
def upperToAscii : List (Nat × List Nat) :=
  [(0xDF, [0x53, 0x53]), (0x131, [0x49]), (0x149, [0x2BC, 0x4E]), (0x17F, [0x53]),
    (0x1F0, [0x4A, 0x30C]), (0x1E96, [0x48, 0x331]), (0x1E97, [0x54, 0x308]),
    (0x1E98, [0x57, 0x30A]), (0x1E99, [0x59, 0x30A]), (0x1E9A, [0x41, 0x2BE]),
    (0xFB00, [0x46, 0x46]), (0xFB01, [0x46, 0x49]), (0xFB02, [0x46, 0x4C]),
    (0xFB03, [0x46, 0x46, 0x49]), (0xFB04, [0x46, 0x46, 0x4C]), (0xFB05, [0x53, 0x54]),
    (0xFB06, [0x53, 0x54])]

/-- The upper case of a character. The texts that are compared with an upper case are ASCII, so
a character outside ASCII whose upper case is so too stays. -/
def upperCase (c : Char) : List Char :=
  match upperToAscii.lookup c.toNat with
  | some codes => codes.map Char.ofNat
  | none => [c.toUpper]

def toUpperCase (s : String) : String := .ofList (s.toList.flatMap upperCase)

/-- The characters of the codes that are read off a screen and retyped. -/
def codeAlphabet : List Char := "ABCDEFGHJKLMNPQRSTUVWXYZ23456789".toList

theorem code_not_space : ∀ c ∈ codeAlphabet, isWhiteSpace c = false :=
  List.all_iff_forall_prop.mp (by decide)

theorem code_upper : ∀ c ∈ codeAlphabet, upperCase c = [c] :=
  List.all_iff_forall_prop.mp (by decide)

theorem dropWhile_code {text : List Char} (code : ∀ c ∈ text, c ∈ codeAlphabet) :
    text.dropWhile isWhiteSpace = text := by
  cases text with
  | nil => rfl
  | cons c rest =>
    have space := code_not_space c (code c List.mem_cons_self)
    simp [space]

theorem trim_code {s : String} (code : ∀ c ∈ s.toList, c ∈ codeAlphabet) : trim s = s := by
  have back : ∀ c ∈ s.toList.reverse, c ∈ codeAlphabet := by simpa using code
  rw [trim, dropWhile_code code, dropWhile_code back, List.reverse_reverse, String.ofList_toList]

theorem toUpperCase_code {s : String} (code : ∀ c ∈ s.toList, c ∈ codeAlphabet) :
    toUpperCase s = s := by
  have same : s.toList.flatMap upperCase = s.toList := by
    have single : s.toList.flatMap upperCase = s.toList.flatMap fun c => [c] := by
      apply List.flatMap_congr
      intro c member
      exact code_upper c (code c member)
    rw [single, List.flatMap_singleton']
  rw [toUpperCase, same, String.ofList_toList]

end HelixKit.Backend.JsText
