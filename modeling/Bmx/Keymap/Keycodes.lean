import Bmx.Base.Numbers

/-!
# Tokens of keys

A keymap names a key of the host by a token: its name, or its number if it has none.
-/

namespace Bmx.Keymap

/-- The tokens of `keycode_format_vkm_token`. -/
def vkmTokens : List (Int × String) :=
  [(0x04, "a"), (0x05, "b"), (0x06, "c"), (0x07, "d"), (0x08, "e"), (0x09, "f"), (0x0a, "g"), (0x0b, "h"),
  (0x0c, "i"), (0x0d, "j"), (0x0e, "k"), (0x0f, "l"), (0x10, "m"), (0x11, "n"), (0x12, "o"), (0x13, "p"),
  (0x14, "q"), (0x15, "r"), (0x16, "s"), (0x17, "t"), (0x18, "u"), (0x19, "v"), (0x1a, "w"), (0x1b, "x"),
  (0x1c, "y"), (0x1d, "z"), (0x1e, "1"), (0x1f, "2"), (0x20, "3"), (0x21, "4"), (0x22, "5"), (0x23, "6"),
  (0x24, "7"), (0x25, "8"), (0x26, "9"), (0x27, "0"), (0x28, "Return"), (0x29, "Escape"), (0x2a, "BackSpace"),
  (0x2b, "Tab"), (0x2c, "Space"), (0x2d, "Dash"), (0x2e, "Equals"), (0x2f, "LeftBracket"), (0x30, "RightBracket"),
  (0x31, "BackSlash"), (0x32, "Pound"), (0x33, "SemiColon"), (0x34, "SingleQuote"), (0x35, "BackQuote"),
  (0x36, "Comma"), (0x37, "Period"), (0x38, "Slash"), (0x39, "CapsLock"), (0x3a, "F1"), (0x3b, "F2"), (0x3c, "F3"),
  (0x3d, "F4"), (0x3e, "F5"), (0x3f, "F6"), (0x40, "F7"), (0x41, "F8"), (0x42, "F9"), (0x43, "F10"), (0x44, "F11"),
  (0x45, "F12"), (0x47, "ScrollLock"), (0x48, "Pause"), (0x49, "Insert"), (0x4a, "Home"), (0x4b, "PageUp"),
  (0x4c, "Del"), (0x4d, "End"), (0x4e, "PageDown"), (0x4f, "Right"), (0x50, "Left"), (0x51, "Down"), (0x52, "Up"),
  (0x53, "NumLock"), (0x54, "KP_Divide"), (0x55, "KP_Multiply"), (0x56, "KP_Subtract"), (0x57, "KP_Add"),
  (0x58, "KP_Enter"), (0x59, "KP_1"), (0x5a, "KP_2"), (0x5b, "KP_3"), (0x5c, "KP_4"), (0x5d, "KP_5"), (0x5e, "KP_6"),
  (0x5f, "KP_7"), (0x60, "KP_8"), (0x61, "KP_9"), (0x62, "KP_0"), (0x63, "KP_Decimal"), (0x64, "KP_BackSlash"),
  (0x65, "Application"), (0x100, "Shift_L"), (0x101, "Shift_R"), (0x102, "Control_L"), (0x103, "Control_R"),
  (0x104, "Alt_L"), (0x105, "Alt_R"), (0x106, "Super_L"), (0x107, "Super_R")]

def upperHexDigit (digit : Nat) : UInt8 := UInt8.ofNat (if digit < 10 then 48 + digit else 55 + digit)

/-- `HID_%02lX` of a number that has no more than two digits. -/
def hidToken (keycode : Nat) : Bytes := ascii "HID_" ++ [upperHexDigit (keycode / 16), upperHexDigit (keycode % 16)]

/-- The token of a key, whatever room it has. -/
def vkmToken (keycode : Int) : Option Bytes :=
  match vkmTokens.find? fun entry => entry.1 = keycode with
  | some entry => some (ascii entry.2)
  | none => if 0 < keycode ∧ keycode ≤ 0xff then some (hidToken keycode.toNat) else none

/-- `keycode_format_vkm_token` into a buffer of a size. -/
def keycodeFormatVkmToken (keycode : Int) (size : Nat) : Option Bytes :=
  (vkmToken keycode).filter fun token => token.length < size

def keycodeNone : Int := -1
def keycodeA : Int := 0x04
def keycode1 : Int := 0x1e
def keycode0 : Int := 0x27
def keycodeF1 : Int := 0x3a
def keycodeKp1 : Int := 0x59
def keycodeKp0 : Int := 0x62

/-- The tokens that `keycode_from_vkm_token` compares with, the legacy spellings last. -/
def knownTokens : List (String × Int) :=
  [("Return", 0x28), ("Escape", 0x29), ("BackSpace", 0x2a), ("Tab", 0x2b), ("Space", 0x2c), ("Dash", 0x2d),
  ("Equals", 0x2e), ("LeftBracket", 0x2f), ("RightBracket", 0x30), ("BackSlash", 0x31), ("Pound", 0x32),
  ("SemiColon", 0x33), ("SingleQuote", 0x34), ("BackQuote", 0x35), ("Comma", 0x36), ("Period", 0x37),
  ("Slash", 0x38), ("CapsLock", 0x39), ("ScrollLock", 0x47), ("Pause", 0x48), ("Insert", 0x49), ("Home", 0x4a),
  ("PageUp", 0x4b), ("Del", 0x4c), ("End", 0x4d), ("PageDown", 0x4e), ("Right", 0x4f), ("Left", 0x50),
  ("Down", 0x51), ("Up", 0x52), ("NumLock", 0x53), ("KP_Divide", 0x54), ("KP_Multiply", 0x55), ("KP_Subtract", 0x56),
  ("KP_Add", 0x57), ("KP_Enter", 0x58), ("KP_Decimal", 0x63), ("KP_BackSlash", 0x64), ("Application", 0x65),
  ("Shift_L", 0x100), ("Shift_R", 0x101), ("Control_L", 0x102), ("Control_R", 0x103), ("Alt_L", 0x104),
  ("Alt_R", 0x105), ("Super_L", 0x106), ("Super_R", 0x107), ("Delete", 0x4b), ("Apostrophe", 0x34),
  ("ISO_Left_Tab", 0x2b), ("KP_Tab", 0x2b), ("LP_Subtract", 0x56), ("KP_Separator", 0x63), ("Page_Down", 0x4e),
  ("Clear", 0x53)]

/-- The key of a digit, where the digit 0 comes after the others. -/
def digitKey (one zero : Int) (c : UInt8) : Option Int :=
  if 49 ≤ c ∧ c ≤ 57 then some (one + c.toNat - 49) else if c = 48 then some zero else none

def characterToken : Bytes → Option Int
  | [c] => if 97 ≤ c ∧ c ≤ 122 then some (keycodeA + c.toNat - 97) else digitKey keycode1 keycode0 c
  | _ => none

/-- `HID_` and two characters. Whatever they are, the search ends with them. -/
def hidNumber (token : Bytes) : Option Int :=
  if (ascii "HID_").isPrefixOf token ∧ token.length = 6 then
    match scanNumber 16 (token.drop 4) with
    | some (number, []) => some (if 0 < number ∧ number ≤ 0xff then number else keycodeNone)
    | _ => some keycodeNone
  else none

def functionKey : Bytes → Option Int
  | 70 :: rest =>
    match scanNumber 10 rest with
    | some (number, []) => if 1 ≤ number ∧ number ≤ 12 then some (keycodeF1 + number - 1) else none
    | _ => none
  | _ => none

def keypadDigit (token : Bytes) : Option Int :=
  if (ascii "KP_").isPrefixOf token ∧ token.length = 4 then
    (token.drop 3).head?.bind (digitKey keycodeKp1 keycodeKp0)
  else none

def keycodeFromVkmToken (token : Bytes) : Int :=
  if token = [] then keycodeNone
  else
    (characterToken token <|> hidNumber token <|> functionKey token <|> keypadDigit token <|>
      (knownTokens.find? fun entry => ascii entry.1 = token).map Prod.snd).getD keycodeNone

/-! ### Tokens are read back -/

/-- A token is a word that cannot be taken for a comment or for a directive. -/
def IsToken (token : Bytes) : Prop :=
  token ≠ [] ∧ token.length < 24 ∧ ∀ c ∈ token, c = 95 ∨ (48 ≤ c ∧ c ≤ 57) ∨ (65 ≤ c ∧ c ≤ 90) ∨ (97 ≤ c ∧ c ≤ 122)

instance (token : Bytes) : Decidable (IsToken token) := inferInstanceAs (Decidable (_ ∧ _ ∧ _))

theorem vkmTokens_spec : ∀ entry ∈ vkmTokens, keycodeFromVkmToken (ascii entry.2) = entry.1 ∧ IsToken (ascii entry.2) := by
  decide +kernel

theorem hidToken_spec : ∀ keycode : Nat, keycode < 256 → (vkmTokens.find? fun entry => entry.1 = (keycode : Int)) = none → 0 < keycode →
    keycodeFromVkmToken (hidToken keycode) = keycode ∧ IsToken (hidToken keycode) := by
  decide +kernel

theorem vkmToken_spec {keycode : Int} {token : Bytes} (h : vkmToken keycode = some token) :
    keycodeFromVkmToken token = keycode ∧ IsToken token := by
  unfold vkmToken at h
  cases hfind : vkmTokens.find? fun entry => entry.1 = keycode with
  | some entry =>
    rw [hfind] at h
    cases h
    have hentry := vkmTokens_spec entry (List.mem_of_find?_eq_some hfind)
    have hkey : entry.1 = keycode := by simpa using List.find?_some hfind
    rw [← hkey]
    exact hentry
  | none =>
    rw [hfind] at h
    dsimp only at h
    split at h
    · rename_i hrange
      cases h
      have hcast : (keycode.toNat : Int) = keycode := by omega
      have hhid := hidToken_spec keycode.toNat (by omega)
      rw [hcast] at hhid
      exact hhid hfind (by omega)
    · cases h

theorem keycodeFormatVkmToken_eq (keycode : Int) : keycodeFormatVkmToken keycode 24 = vkmToken keycode := by
  unfold keycodeFormatVkmToken
  cases htoken : vkmToken keycode with
  | none => rfl
  | some token =>
    rw [Option.filter_some, if_pos]
    exact decide_eq_true (vkmToken_spec htoken).2.2.1

end Bmx.Keymap
