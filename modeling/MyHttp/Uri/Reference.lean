import MyHttp.Uri

/-! What a URI reference is made of: how its text is cut into components, and the grammar of `uri.rl` for each of them. -/

namespace MyHttp

open Lib.CString Lib.Scan

/-! ### Components -/

/-- What stands before the first byte of `stop`, and what is left from there. -/
def cut (stop : Bytes) (s : Bytes) : Bytes × Bytes := (s.takeWhile (· ∉ stop), s.dropWhile (· ∉ stop))

structure Authority where
  userinfo : Option Bytes
  host : Bytes
  port : Option Bytes
deriving DecidableEq, Repr

/-- The host ends at a colon; in brackets there may be others. -/
def Authority.ofHost (userinfo : Option Bytes) (a : Bytes) : Authority :=
  let front := if a.head? = some 91 then (cut (ascii "]") a).1 else []
  let (back, port) := cut (ascii ":") (a.drop front.length)
  ⟨userinfo, front ++ back, if port = [] then none else some port.tail⟩

def Authority.of (a : Bytes) : Authority :=
  if 64 ∈ a then .ofHost (some (cut (ascii "@") a).1) (cut (ascii "@") a).2.tail else .ofHost none a

/-- The parts behind the path. -/
structure Tail where
  query : Option Bytes
  fragment : Option Bytes
deriving DecidableEq, Repr

def fragmentOf (d : Bytes) : Option Bytes := if d.head? = some 35 then some d.tail else none

def Tail.of (d : Bytes) : Tail :=
  if d.head? = some 63 then ⟨some (cut (ascii "#") d.tail).1, fragmentOf (cut (ascii "#") d.tail).2⟩
  else ⟨none, fragmentOf d⟩

structure Reference where
  scheme : Option Bytes
  authority : Option Authority
  path : Bytes
  tail : Tail
deriving DecidableEq, Repr

/-- What comes behind the scheme. -/
def Reference.ofHier (scheme : Option Bytes) (d : Bytes) : Reference :=
  if d.take 2 = ascii "//" then
    let (authority, d) := cut (ascii "/?#") (d.drop 2)
    let (path, d) := cut (ascii "?#") d
    ⟨scheme, some (.of authority), path, .of d⟩
  else
    let (path, d) := cut (ascii "?#") d
    ⟨scheme, none, path, .of d⟩

/-- A text by its delimiters, as by the expression of RFC 3986. -/
def Reference.of (s : Bytes) : Reference :=
  let (w, d) := cut (ascii ":/?#") s
  if w ≠ [] ∧ d.head? = some 58 then .ofHier (some w) d.tail else .ofHier none s

/-! ### The grammar -/

/-- Bytes of a class and `pct_encoded` ones. -/
def encoded (k : CharClass) : Bytes → Bool
  | [] => true
  | 37 :: x :: y :: w => UriParser.xdigit.has x && UriParser.xdigit.has y && encoded k w
  | c :: w => c ≠ 37 && k.has c && encoded k w

def isScheme : Bytes → Bool
  | [] => false
  | c :: w => UriParser.alpha.has c && w.all UriParser.schemeChar.has

/-- `dec_octet`: the alternative for 200 to 249 begins with the byte 2, not with the digit. -/
def decOctet : Bytes → Bool
  | [a] => UriParser.digit.has a
  | [a, b] => a ≠ 48 && UriParser.digit.has a && UriParser.digit.has b
  | [a, b, c] =>
    (a = 49 && UriParser.digit.has b && UriParser.digit.has c) ||
      (a = 2 && UriParser.upTo4.has b && UriParser.digit.has c) || (a = 50 && b = 53 && UriParser.upTo5.has c)
  | _ => false

/-- Octets, with a dot behind each but the last; `n` dots. -/
def octets : Nat → Bytes → Bool
  | 0, w => decOctet w
  | n + 1, w => decOctet (cut (ascii ".") w).1 && (cut (ascii ".") w).2.head? = some 46 && octets n (cut (ascii ".") w).2.tail

def ipv4Address (w : Bytes) : Bool := octets 3 w

def h16 (g : Bytes) : Bool := g ≠ [] && g.length ≤ 4 && g.all UriParser.xdigit.has

/-- `n` groups, with a colon behind each but the last. -/
def groups : Nat → Bytes → Bool
  | 0, w => w = []
  | n + 1, w =>
    h16 (cut (ascii ":") w).1 &&
      if (cut (ascii ":") w).2 = [] then n = 0 else n ≠ 0 && groups n (cut (ascii ":") w).2.tail

/-- The same, where the last two groups may be an `IPv4address`. -/
def units : Nat → Bytes → Bool
  | 0, w => w = []
  | n + 1, w =>
    if (cut (ascii ":") w).2 = [] then n = 0 && h16 (cut (ascii ":") w).1 || n = 1 && ipv4Address (cut (ascii ":") w).1
    else n ≠ 0 && h16 (cut (ascii ":") w).1 && units n (cut (ascii ":") w).2.tail

/-- `IPv6address`: eight groups, or a `::` with seven at most; where groups come before it, with seven in all. -/
def ipv6Address (w : Bytes) : Prop :=
  units 8 w = true ∨ (∃ n r, n ≤ 7 ∧ w = ascii "::" ++ r ∧ units n r = true) ∨
    ∃ n l r, 1 ≤ n ∧ n ≤ 7 ∧ w = l ++ ascii "::" ++ r ∧ groups n l = true ∧ units (7 - n) r = true

def ipvFuture (w : Bytes) : Prop :=
  ∃ x y, w = 118 :: x ++ 46 :: y ∧ x ≠ [] ∧ y ≠ [] ∧ (∀ c ∈ x, UriParser.xdigit.has c = true) ∧
    ∀ c ∈ y, UriParser.userChar.has c = true

def ipLiteral (h : Bytes) : Prop := ∃ w, h = 91 :: w ++ [93] ∧ (ipv6Address w ∨ ipvFuture w)

def isHost (h : Bytes) : Prop := ipLiteral h ∨ ipv4Address h = true ∨ encoded UriParser.nameChar h = true

namespace Authority

structure WellFormed (a : Authority) : Prop where
  userinfo : ∀ u ∈ a.userinfo, encoded UriParser.userChar u = true
  host : isHost a.host
  port : ∀ p ∈ a.port, ∀ c ∈ p, UriParser.digit.has c = true

end Authority

structure Tail.WellFormed (x : Tail) : Prop where
  query : ∀ q ∈ x.query, encoded UriParser.queryChar q = true
  fragment : ∀ f ∈ x.fragment, encoded UriParser.queryChar f = true

instance (x : Tail) : Decidable x.WellFormed :=
  decidable_of_iff ((∀ q ∈ x.query, encoded UriParser.queryChar q = true) ∧
    ∀ f ∈ x.fragment, encoded UriParser.queryChar f = true) ⟨fun h => ⟨h.1, h.2⟩, fun h => ⟨h.1, h.2⟩⟩

/-- Well-formed up to the end of the path. A path that begins with a colon would have its scheme left out. -/
structure Reference.WellFormed (x : Reference) : Prop where
  scheme : ∀ v ∈ x.scheme, isScheme v = true
  authority : ∀ a ∈ x.authority, a.WellFormed
  path : encoded UriParser.pathChar x.path = true
  colon : x.scheme = none → x.authority = none → x.path.head? ≠ some 58

end MyHttp
