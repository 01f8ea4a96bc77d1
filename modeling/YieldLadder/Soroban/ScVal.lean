import YieldLadder.Foundation.Codec
import YieldLadder.Vault.Tier

/-! # Contract values

Arguments and results cross the border of a contract as contract values. A contract that is handed a
value of another shape than its parameter has ends the call.
-/
namespace YieldLadder
open Foundation

inductive ScVal
  | void
  | bool (b : Bool)
  | u32 (n : ℕ)
  | i128 (x : ℤ)
  | address (a : Address)
  | string (text : String)
  | symbol (text : String)
  | vec (items : List ScVal)
  | map (entries : List (ScVal × ScVal))

/-- The variant of the contracts' enumeration as its symbol. -/
def Tier.symbol : Tier → String
  | .flex => "Flex"
  | .l3 => "L3"
  | .l6 => "L6"
  | .l12 => "L12"

def Tier.ofSymbol (text : String) : Option Tier := [Tier.flex, .l3, .l6, .l12].find? (·.symbol = text)

theorem Tier.ofSymbol_symbol (t : Tier) : Tier.ofSymbol t.symbol = some t := by
  cases t <;> decide

namespace ScVal

def ofAddress : Codec ScVal Address where
  encode := .address
  decode
    | .address a => some a
    | _ => none
  decode_encode _ := rfl

def ofI128 : Codec ScVal ℤ where
  encode := .i128
  decode
    | .i128 x => some x
    | _ => none
  decode_encode _ := rfl

/-- A unit variant of a `#[contracttype]` enumeration is a vector that holds its symbol. -/
def ofTier : Codec ScVal Tier where
  encode t := .vec [.symbol t.symbol]
  decode
    | .vec [.symbol text] => Tier.ofSymbol text
    | _ => none
  decode_encode := Tier.ofSymbol_symbol

def ofVec : Codec ScVal (List ScVal) where
  encode := .vec
  decode
    | .vec items => some items
    | _ => none
  decode_encode _ := rfl

/-- The entry of a `#[contracttype]` structure under the symbol of a field. -/
def field (name : String) : ScVal → Option ScVal
  | .map entries => (entries.find? fun e => match e.1 with
    | .symbol text => text = name
    | _ => false).map Prod.snd
  | _ => none

/-- The result of a call. A structure is a map from the symbols of its fields, in their order. -/
def ofValue : Value → ScVal
  | .unit => .void
  | .i128 x => .i128 x
  | .u32 n => .u32 n
  | .bool b => .bool b
  | .address a => .address a
  | .position principal shares lockUntil =>
    .map [(.symbol "lock_until", .u32 lockUntil), (.symbol "principal", .i128 principal),
      (.symbol "shares", .i128 shares)]
  | .capacity maxTvl remaining =>
    .map [(.symbol "max_tvl", .i128 maxTvl), (.symbol "remaining", .i128 remaining)]

end ScVal
end YieldLadder
