import PromptCode.Py.FloatRepr

/-!
# IP addresses

`ipaddress.ip_address`, the membership of an address in a network, and the text of an
address.
-/

namespace PromptCode.Py

/-- An address; one of version 6 may have a scope. -/
inductive IpAddress where
  | v4 (ip : BitVec 32)
  | v6 (ip : BitVec 128) (scope : Option Str)
  deriving DecidableEq

/-- A network: the addresses that agree with its own in the first bits. -/
inductive IpNetwork where
  | v4 (address : BitVec 32) (prefixLength : Fin 33)
  | v6 (address : BitVec 128) (prefixLength : Fin 129)

namespace IpAddress

/-! ## Reading -/

/-- `_parse_octet`: no leading zeros. -/
def parseOctet (s : Str) : Option ℕ :=
  if s = [] ∨ s.all isDigit = false ∨ 3 < s.length then none
  else if s ≠ lit "0" ∧ s.head? = some 48 then none
  else if 255 < digitsValue s then none
  else some (digitsValue s)

def parseV4 (s : Str) : Option (BitVec 32) := do
  let octets ← (split dot s).mapM parseOctet
  if octets.length = 4 then
    return BitVec.ofNat 32 (octets.foldl (fun n octet => n * 256 + octet) 0)
  else none

/-- `_parse_hextet` -/
def parseHextet (s : Str) : Option ℕ := do
  let digits ← s.mapM hexValue
  if s = [] ∨ 4 < s.length then none
  else return digits.foldl (fun n digit => n * 16 + digit) 0

/-- `'%x' % n` of sixteen bits. -/
def hextet (n : ℕ) : Str :=
  let digits := [hexDigit (n / 4096), hexDigit (n / 256), hexDigit (n / 16), hexDigit n]
  match digits.dropWhile fun c => c = 48 with
  | [] => lit "0"
  | digits => digits

/-- The parts between colons; an IPv4 address at the end stands for two of them. -/
def colonParts (s : Str) : Option (List Str) :=
  let parts := split 58 s
  if parts.length < 3 then none
  else
    let last := parts.getLastD []
    if dot ∈ last then do
      let ip ← parseV4 last
      return parts.dropLast ++ [hextet (ip.toNat / 65536), hextet (ip.toNat % 65536)]
    else some parts

/-- The empty parts inside, where `::` stands. -/
def emptyInside (parts : List Str) : List ℕ :=
  (List.range parts.length).filter fun i =>
    0 < i && i + 1 < parts.length && parts[i]?.getD [] = []

/-- The hextets before and after `::`; without it there are eight of them. -/
def hextetParts (parts : List Str) : Option (List Str × List Str) :=
  if 9 < parts.length then none
  else
    match emptyInside parts with
    | [] =>
        if parts.length = 8 ∧ parts.head? ≠ some [] ∧ parts.getLast? ≠ some [] then
          some (parts, [])
        else none
    | [skip] =>
        let high := parts.take skip
        let low := parts.drop (skip + 1)
        let high' := if high.head? = some [] then high.tail else high
        let low' := if low.getLast? = some [] then low.dropLast else low
        if (high.head? = some [] ∧ high' ≠ []) ∨ (low.getLast? = some [] ∧ low' ≠ []) then none
        else if 8 ≤ high'.length + low'.length then none
        else some (high', low')
    | _ => none

def parseV6Int (s : Str) : Option (BitVec 128) := do
  let parts ← colonParts s
  let (high, low) ← hextetParts parts
  let highs ← high.mapM parseHextet
  let lows ← low.mapM parseHextet
  let hextets := highs ++ List.replicate (8 - (highs.length + lows.length)) 0 ++ lows
  return BitVec.ofNat 128 (hextets.foldl (fun n h => n * 65536 + h) 0)

/-- `_split_scope_id` -/
def splitScope (s : Str) : Option (Str × Option Str) :=
  match split 37 s with
  | [address] => some (address, none)
  | [address, scope] => if scope = [] then none else some (address, some scope)
  | _ => none

def parseV6 (s : Str) : Option IpAddress :=
  if slash ∈ s then none
  else do
    let (address, scope) ← splitScope s
    let ip ← parseV6Int address
    return .v6 ip scope

/-- `ipaddress.ip_address`; `none` is `ValueError`. -/
def parse (s : Str) : Option IpAddress :=
  match parseV4 s with
  | some ip => some (.v4 ip)
  | none => parseV6 s

/-! ## Networks -/

/-- `ip in network`; the versions have to agree, and a scope does not count. -/
def isIn : IpAddress → IpNetwork → Bool
  | .v4 ip, .v4 address prefixLength =>
      ip >>> (32 - prefixLength.val) = address >>> (32 - prefixLength.val)
  | .v6 ip _, .v6 address prefixLength =>
      ip >>> (128 - prefixLength.val) = address >>> (128 - prefixLength.val)
  | _, _ => false

/-! ## Writing -/

/-- The first longest run of zeros among the hextets, as its start and its length; the run that
ends here comes first. -/
def zeroRuns : ℕ → ℕ × ℕ → ℕ × ℕ → List Str → ℕ × ℕ
  | _, _, best, [] => best
  | i, run, best, h :: hextets =>
      if h = lit "0" then
        let run' := (if run.2 = 0 then i else run.1, run.2 + 1)
        zeroRuns (i + 1) run' (if best.2 < run'.2 then run' else best) hextets
      else zeroRuns (i + 1) (0, 0) best hextets

/-- `_compress_hextets` -/
def compressHextets (hextets : List Str) : List Str :=
  let (start, len) := zeroRuns 0 (0, 0) (0, 0) hextets
  if 1 < len then
    let hextets' := if start + len = hextets.length then hextets ++ [[]] else hextets
    let short := hextets'.take start ++ [[]] ++ hextets'.drop (start + len)
    if start = 0 then [] :: short else short
  else hextets

/-- `str(ip)` -/
def text : IpAddress → Str
  | .v4 ip => join dot ((List.range 4).map fun i => jsonNat (ip.toNat / 256 ^ (3 - i) % 256))
  | .v6 ip scope =>
      let hextets := (List.range 8).map fun i => hextet (ip.toNat / 65536 ^ (7 - i) % 65536)
      join 58 (compressHextets hextets) ++ scope.elim [] fun s => 37 :: s

example :
    [lit "10.0.0.1", lit "010.0.0.1", lit "::1", lit "2001:DB8::ffff:1.2.3.4", lit "fe80::1%eth0",
      lit "1:2:3:4:5:6:7", lit "1:0:0:2:0:0:0:3"].map (fun s => (parse s).map text) =
    [some (lit "10.0.0.1"), none, some (lit "::1"), some (lit "2001:db8::ffff:102:304"),
      some (lit "fe80::1%eth0"), none, some (lit "1:0:0:2::3")] := by
  decide +kernel

end IpAddress

end PromptCode.Py
