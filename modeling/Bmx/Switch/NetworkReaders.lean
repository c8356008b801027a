import Bmx.Switch.BootFiles

/-!
# The readers of the network options

The kernel reads the addresses and the numbers of the command line that the firmware hands over.
-/

namespace Bmx.Switch

def isDigit (c : UInt8) : Bool := 48 ≤ c ∧ c ≤ 57

/-- The number that digits spell. -/
def digitsValue (digits : Bytes) : Nat := digits.foldl (fun value c => value * 10 + (c.toNat - 48)) 0

/-- The four bytes of an address. -/
abbrev Ipv4 := List UInt8

/-- One number of `ParseIPv4`: its digits, as long as it stays below 256. -/
def parseNumber (value : Nat) : Bytes → Option (Nat × Bytes)
  | [] => some (value, [])
  | c :: rest =>
    if isDigit c then
      if value * 10 + (c.toNat - 48) > 255 then none else parseNumber (value * 10 + (c.toNat - 48)) rest
    else some (value, c :: rest)

/-- The loop of `ParseIPv4`, with so many dots still to come. -/
def parseIpv4From : Nat → Bytes → Option Ipv4
  | dots, text =>
    match text with
    | [] => none
    | c :: _ =>
      if isDigit c then
        match parseNumber 0 text with
        | none => none
        | some (value, rest) =>
          match dots with
          | 0 => if rest = [] then some [UInt8.ofNat value] else none
          | dots + 1 =>
            match rest with
            | 46 :: cursor => (parseIpv4From dots cursor).map fun parts => UInt8.ofNat value :: parts
            | _ => none
      else none

def parseIpv4 (text : Bytes) : Option Ipv4 := parseIpv4From 3 text

/-- What `ParseIPv4` returns, and what is then in the array it was given. -/
def storeIpv4 (text : Bytes) (out : Ipv4) : Bool × Ipv4 :=
  match parseIpv4 text with
  | some parts => (true, parts)
  | none => (false, out)

/-- `GetDecimal`, none for the invalid value. -/
def getDecimalFrom (value : Nat) : Bytes → Option Nat
  | [] => some value
  | c :: rest =>
    let next := (value * 10 + (c.toNat - 48)) % 2 ^ 32
    if ¬ isDigit c then none
    else if next < value ∨ next = 2 ^ 32 - 1 then none
    else getDecimalFrom next rest

def getDecimal (text : Bytes) : Option Nat := if text = [] then none else getDecimalFrom 0 text

end Bmx.Switch
