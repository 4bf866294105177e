import MediaBackup.Admin.Accounts

/-!
# The address of a client behind proxies

Networks of trusted proxies, and the walk along the forwarded addresses from the transport peer to
the first one that no trusted proxy speaks for.
-/

namespace MediaBackup

open Admin (Text)

/-! ## Addresses -/

inductive IpAddr
  | v4 (address : BitVec 32)
  | v6 (address : BitVec 128)
  deriving DecidableEq

namespace IpAddr

/-- How many bits an address of its family has. -/
def width : IpAddr → Nat
  | v4 _ => 32
  | v6 _ => 128

/-- The bits of an address, the first one first. -/
def bit : IpAddr → Nat → Bool
  | v4 address, i => address.getMsbD i
  | v6 address, i => address.getMsbD i

def isIpv4 : IpAddr → Bool
  | v4 _ => true
  | v6 _ => false

end IpAddr

/-- An IPv4-mapped IPv6 address is the IPv4 address. -/
def canonicalIp : IpAddr → IpAddr
  | .v6 address =>
      if address.extractLsb' 32 96 = 0xffff then .v4 (address.extractLsb' 0 32) else .v6 address
  | .v4 address => .v4 address

theorem canonicalIp_canonicalIp (address : IpAddr) :
    canonicalIp (canonicalIp address) = canonicalIp address := by
  cases address with
  | v4 address => rfl
  | v6 address =>
    by_cases h : address.extractLsb' 32 96 = 0xffff
    · rw [canonicalIp, if_pos h]
      rfl
    · rw [canonicalIp, if_neg h, canonicalIp, if_neg h]

/-! ## Reading addresses -/

/-- What is read from a text, and what is left of it. -/
abbrev IpParser (α : Type) := Text → Option (α × Text)

namespace IpParser

def readGivenChar (c : Char) : IpParser Unit
  | [] => none
  | d :: rest => if d = c then some ((), rest) else none

/-- `char::to_digit`. -/
def toDigit (radix : Nat) (c : Char) : Option Nat :=
  let value :=
    if '0' ≤ c ∧ c ≤ '9' then some (c.toNat - 48)
    else if 'a' ≤ c ∧ c ≤ 'z' then some (c.toNat - 87)
    else if 'A' ≤ c ∧ c ≤ 'Z' then some (c.toNat - 55)
    else none
  value.filter (· < radix)

/-- All digits that follow, if they are not too many and their number is not too large. -/
def readNumber (radix maxDigits : Nat) (allowZeroPrefix : Bool) (max : Nat) : IpParser Nat :=
  fun text =>
    let digits := text.takeWhile fun c => (toDigit radix c).isSome
    let value := digits.foldl (fun sum c => sum * radix + (toDigit radix c).getD 0) 0
    if digits = [] ∨ maxDigits < digits.length ∨ max < value ∨
        (allowZeroPrefix = false ∧ digits.head? = some '0' ∧ 1 < digits.length) then none
    else some (value, text.drop digits.length)

/-- The separator comes before all but the first. -/
def readSeparator {α : Type} (separator : Char) (index : Nat) (inner : IpParser α) : IpParser α :=
  fun text =>
    if index = 0 then inner text
    else (readGivenChar separator text).bind fun read => inner read.2

/-- Four numbers below 256 without leading zeros. -/
def readIpv4Addr : IpParser (BitVec 32) := fun text => do
  let octet := fun index => readSeparator '.' index (readNumber 10 3 false 255)
  let (a, text) ← octet 0 text
  let (b, text) ← octet 1 text
  let (c, text) ← octet 2 text
  let (d, text) ← octet 3 text
  some (BitVec.ofNat 32 (((a * 256 + b) * 256 + c) * 256 + d), text)

/-- So many groups at most, from this index on: the groups, whether an IPv4 address was the last
two of them, and what is left. -/
def readGroups : Nat → Nat → Text → List Nat × Bool × Text
  | 0, _, text => ([], false, text)
  | more + 1, index, text =>
      match if 0 < more then readSeparator ':' index readIpv4Addr text else none with
      | some (address, rest) => ([address.toNat / 65536, address.toNat % 65536], true, rest)
      | none =>
          match readSeparator ':' index (readNumber 16 4 true 65535) text with
          | some (group, rest) =>
              let (groups, ipv4, rest) := readGroups more (index + 1) rest
              (group :: groups, ipv4, rest)
          | none => ([], false, text)

def ofGroups (groups : List Nat) : BitVec 128 :=
  BitVec.ofNat 128 (groups.foldl (fun sum group => sum * 65536 + group) 0)

/-- Eight groups, or fewer with two colons for the zeros between them. -/
def readIpv6Addr : IpParser (BitVec 128) := fun text => do
  let (head, headIpv4, rest) := readGroups 8 0 text
  if head.length = 8 then some (ofGroups head, rest)
  else if headIpv4 then none
  else do
    let (_, rest) ← readGivenChar ':' rest
    let (_, rest) ← readGivenChar ':' rest
    let (tail, _, rest) := readGroups (7 - head.length) 0 rest
    let zeros := List.replicate (8 - head.length - tail.length) 0
    some (ofGroups (head ++ zeros ++ tail), rest)

def readIpAddr : IpParser IpAddr := fun text =>
  ((readIpv4Addr text).map fun read => (.v4 read.1, read.2)) <|>
    (readIpv6Addr text).map fun read => (.v6 read.1, read.2)

end IpParser

/-- `str::parse::<IpAddr>`: nothing may be left. -/
def IpAddr.parse (text : Text) : Option IpAddr :=
  (IpParser.readIpAddr text).bind fun read => if read.2 = [] then some read.1 else none

/-- `str::parse::<u8>`. -/
def parseU8 (text : Text) : Option Nat :=
  let digits := if text.head? = some '+' then text.tail else text
  if digits = [] ∨ digits.any (fun c => !c.isDigit) then none
  else some (Nat.ofDigitChars 10 digits 0) |>.filter (· ≤ 255)

/-! ## Trusted networks -/

/-- A network as `from_str` leaves it: its address is canonical, and its prefix is not longer. -/
structure TrustedNetwork where
  address : IpAddr
  prefixLength : Nat
  canonical : canonicalIp address = address
  bounded : prefixLength ≤ address.width

/-- The mask of a prefix. -/
def prefixMask (width prefixLength : Nat) : BitVec width :=
  if prefixLength = 0 then 0 else BitVec.allOnes width <<< (width - prefixLength)

namespace TrustedNetwork

def contains (network : TrustedNetwork) (candidate : IpAddr) : Bool :=
  match canonicalIp network.address, canonicalIp candidate with
  | .v4 address, .v4 candidate =>
      let mask := prefixMask 32 network.prefixLength
      address &&& mask = candidate &&& mask
  | .v6 address, .v6 candidate =>
      let mask := prefixMask 128 network.prefixLength
      address &&& mask = candidate &&& mask
  | _, _ => false

/-- The last check of `from_str`. -/
def ofParts (address : IpAddr) (prefixLength : Nat) : Except String TrustedNetwork :=
  if h : prefixLength ≤ (canonicalIp address).width then
    .ok ⟨canonicalIp address, prefixLength, canonicalIp_canonicalIp address, h⟩
  else .error ("trusted proxy prefix exceeds " ++ toString (canonicalIp address).width)

def fromStr (value : Text) : Except String TrustedNetwork :=
  let value := value.trim
  if value = [] then .error "trusted proxy CIDR cannot be empty"
  else
    match value.dropWhile (· ≠ '/') with
    | _ :: length =>
        let address := value.takeWhile (· ≠ '/')
        match IpAddr.parse address with
        | none => .error ("invalid trusted proxy address: " ++ String.ofList address)
        | some parsed =>
            match parseU8 length with
            | none => .error ("invalid trusted proxy prefix: " ++ String.ofList length)
            | some length => ofParts parsed length
    | [] =>
        match IpAddr.parse value with
        | none => .error ("invalid trusted proxy address: " ++ String.ofList value)
        | some parsed => ofParts parsed (canonicalIp parsed).width

end TrustedNetwork

/-! ## Resolving -/

def isTrusted (address : IpAddr) (trusted : List TrustedNetwork) : Bool :=
  trusted.any fun network => network.contains address

def maxForwardedHops : Nat := 32

/-- `HeaderValue::to_str`: visible ASCII, blanks and tabs. -/
def headerText (value : Bytes) : Option Text :=
  if value.all fun b => (32 ≤ b && b < 127) || b == 9 then
    some (value.map fun b => Char.ofNat b.toNat)
  else none

def invalidForwardedFor : AppError := .badRequest "invalid X-Forwarded-For header"

def pushHop (hops : List IpAddr) (hop : Text) : Except AppError (List IpAddr) :=
  if maxForwardedHops ≤ hops.length then .error (.badRequest "too many forwarded hops")
  else
    match IpAddr.parse hop.trim with
    | none => .error invalidForwardedFor
    | some address => .ok (hops ++ [canonicalIp address])

def pushHeader (hops : List IpAddr) (value : Bytes) : Except AppError (List IpAddr) :=
  match headerText value with
  | none => .error invalidForwardedFor
  | some text => (text.splitOn ',').foldlM pushHop hops

/-- The hops of all header lines, in order. -/
def forwardedHops (headers : List Bytes) : Except AppError (List IpAddr) :=
  headers.foldlM pushHeader []

/-- The loop over the hops from the right. -/
def walkHops (trusted : List TrustedNetwork) (client : IpAddr) : List IpAddr → IpAddr
  | [] => client
  | hop :: hops => if !isTrusted client trusted then client else walkHops trusted hop hops

def resolveClientIp (peer : IpAddr) (headers : List Bytes) (trusted : List TrustedNetwork) :
    Except AppError IpAddr :=
  let peer := canonicalIp peer
  if !isTrusted peer trusted then .ok peer
  else do
    let hops ← forwardedHops headers
    pure (walkHops trusted peer hops.reverse)

/-! ## Prefixes -/

theorem getMsbD_prefixMask {width prefixLength i : Nat} (h : prefixLength ≤ width) :
    (prefixMask width prefixLength).getMsbD i = decide (i < prefixLength) := by
  unfold prefixMask
  by_cases hzero : prefixLength = 0
  · simp [hzero]
  · rw [if_neg hzero]
    simp only [BitVec.getMsbD_shiftLeft, BitVec.getMsbD_allOnes]
    rw [decide_eq_decide]
    omega

/-- Under the mask two addresses are the same when they agree on the prefix. -/
theorem masked_eq_iff {width prefixLength : Nat} (h : prefixLength ≤ width)
    (a b : BitVec width) :
    a &&& prefixMask width prefixLength = b &&& prefixMask width prefixLength ↔
      ∀ i < prefixLength, a.getMsbD i = b.getMsbD i := by
  constructor
  · intro heq i hi
    have hbit := congrArg (fun v => v.getMsbD i) heq
    simpa [getMsbD_prefixMask h, hi] using hbit
  · intro hbits
    apply BitVec.eq_of_getMsbD_eq
    intro i _
    by_cases hi : i < prefixLength
    · simp [getMsbD_prefixMask h, hi, hbits i hi]
    · simp [getMsbD_prefixMask h, hi]

theorem TrustedNetwork.contains_iff (network : TrustedNetwork) (candidate : IpAddr) :
    network.contains candidate = true ↔
      (canonicalIp network.address).isIpv4 = (canonicalIp candidate).isIpv4 ∧
        ∀ i < network.prefixLength,
          (canonicalIp network.address).bit i = (canonicalIp candidate).bit i := by
  have hbounded : network.prefixLength ≤ (canonicalIp network.address).width :=
    network.canonical.symm ▸ network.bounded
  unfold contains
  cases haddress : canonicalIp network.address with
  | v4 address =>
    rw [haddress] at hbounded
    change network.prefixLength ≤ 32 at hbounded
    cases hcandidate : canonicalIp candidate with
    | v4 other => simpa [IpAddr.isIpv4, IpAddr.bit] using masked_eq_iff hbounded address other
    | v6 other => simp [IpAddr.isIpv4]
  | v6 address =>
    rw [haddress] at hbounded
    change network.prefixLength ≤ 128 at hbounded
    cases hcandidate : canonicalIp candidate with
    | v4 other => simp [IpAddr.isIpv4]
    | v6 other => simpa [IpAddr.isIpv4, IpAddr.bit] using masked_eq_iff hbounded address other

/-! ## The walk -/

/-- The hops from the one that decides to the right: the last untrusted one, or the first one. -/
def fromClient (trusted : List TrustedNetwork) : List IpAddr → List IpAddr
  | [] => []
  | hop :: hops =>
      if hops.all fun h => isTrusted h trusted then hop :: hops else fromClient trusted hops

section

variable {trusted : List TrustedNetwork}

/-- One more hop is reached when everything before it is trusted. -/
theorem walkHops_append (client hop : IpAddr) (hops : List IpAddr) :
    walkHops trusted client (hops ++ [hop]) =
      if (client :: hops).all fun h => isTrusted h trusted then hop
      else walkHops trusted client hops := by
  induction hops generalizing client with
  | nil => cases h : isTrusted client trusted <;> simp [walkHops, h]
  | cons next hops ih =>
    rw [List.cons_append, walkHops, ih, walkHops, List.all_cons]
    by_cases h : isTrusted client trusted = true
    · simp only [List.all_cons, h, Bool.not_true, Bool.false_eq_true, if_false, Bool.true_and]
    · simp [h]

theorem walkHops_reverse {peer : IpAddr} (hpeer : isTrusted peer trusted = true)
    (hops : List IpAddr) :
    walkHops trusted peer hops.reverse = (fromClient trusted hops).head?.getD peer := by
  induction hops with
  | nil => rfl
  | cons hop hops ih =>
    rw [List.reverse_cons, walkHops_append, List.all_cons, hpeer, Bool.true_and, List.all_reverse,
      fromClient]
    by_cases h : (hops.all fun h => isTrusted h trusted) = true
    · rw [if_pos h, if_pos h]
      rfl
    · rw [if_neg h, if_neg h, ih]

/-- The hop that decides, with what is on both sides of it. -/
theorem fromClient_spec (hops : List IpAddr) (hne : hops ≠ []) :
    ∃ left client right, hops = left ++ client :: right ∧
      fromClient trusted hops = client :: right ∧ (∀ hop ∈ right, isTrusted hop trusted = true) ∧
      (isTrusted client trusted = false ∨ left = []) := by
  induction hops with
  | nil => exact absurd rfl hne
  | cons hop hops ih =>
    by_cases h : (hops.all fun h => isTrusted h trusted) = true
    · have hall : ∀ hop ∈ hops, isTrusted hop trusted = true := List.all_eq_true.mp h
      exact ⟨[], hop, hops, rfl, if_pos h, hall, .inr rfl⟩
    · have hrest : hops ≠ [] := by
        rintro rfl
        exact h rfl
      obtain ⟨left, client, right, heq, hfrom, hright, hclient⟩ := ih hrest
      refine ⟨hop :: left, client, right, by rw [heq]; rfl, ?_, hright, .inl ?_⟩
      · rw [fromClient, if_neg h, hfrom]
      · rcases hclient with hclient | hleft
        · exact hclient
        · by_contra htrusted
          apply h
          rw [heq, hleft]
          rw [List.nil_append, List.all_cons, eq_true_of_ne_false htrusted, Bool.true_and]
          exact List.all_eq_true.mpr hright

/-- What is left of an untrusted hop does not decide. -/
theorem fromClient_append {hop : IpAddr} (hhop : isTrusted hop trusted = false)
    (left right : List IpAddr) :
    fromClient trusted (left ++ hop :: right) = fromClient trusted (hop :: right) := by
  induction left with
  | nil => rfl
  | cons first left ih =>
    rw [List.cons_append, fromClient, if_neg, ih]
    simp [hhop]

theorem resolveClientIp_of_trusted {peer : IpAddr} {headers : List Bytes} {hops : List IpAddr}
    (hpeer : isTrusted (canonicalIp peer) trusted = true)
    (hhops : forwardedHops headers = .ok hops) :
    resolveClientIp peer headers trusted =
      .ok ((fromClient trusted hops).head?.getD (canonicalIp peer)) := by
  unfold resolveClientIp
  simp only [hpeer, hhops, Bool.not_true, Bool.false_eq_true, if_false]
  exact congrArg Except.ok (walkHops_reverse hpeer hops)

end

/-- The address of a client is the peer's own when the peer is not trusted, and otherwise that of
the rightmost hop that is not trusted, of the leftmost one if all are, or of the peer if there is
none; so only the hops from there to the right matter. A network contains the addresses of its
family that agree with it on its prefix. -/
theorem client_ip_is_rightmost_untrusted (trusted : List TrustedNetwork) (peer : IpAddr) :
    (isTrusted (canonicalIp peer) trusted = false →
      ∀ headers, resolveClientIp peer headers trusted = .ok (canonicalIp peer)) ∧
    (isTrusted (canonicalIp peer) trusted = true →
      ∀ headers hops, forwardedHops headers = .ok hops →
        ∃ client, resolveClientIp peer headers trusted = .ok client ∧
          ((hops = [] ∧ client = canonicalIp peer) ∨
            ∃ left right, hops = left ++ client :: right ∧
              (∀ hop ∈ right, isTrusted hop trusted = true) ∧
              (isTrusted client trusted = false ∨
                isTrusted client trusted = true ∧ left = []))) ∧
    (∀ headers headers' hops hops', forwardedHops headers = .ok hops →
      forwardedHops headers' = .ok hops' →
        (fromClient trusted hops = fromClient trusted hops' →
          resolveClientIp peer headers trusted = resolveClientIp peer headers' trusted) ∧
        ∀ left left' hop right, hops = left ++ hop :: right → hops' = left' ++ hop :: right →
          isTrusted hop trusted = false →
            resolveClientIp peer headers trusted = resolveClientIp peer headers' trusted) ∧
    ∀ (network : TrustedNetwork) (candidate : IpAddr), network.contains candidate = true ↔
      (canonicalIp network.address).isIpv4 = (canonicalIp candidate).isIpv4 ∧
        ∀ i < network.prefixLength,
          (canonicalIp network.address).bit i = (canonicalIp candidate).bit i := by
  have huntrusted : isTrusted (canonicalIp peer) trusted = false →
      ∀ headers, resolveClientIp peer headers trusted = .ok (canonicalIp peer) := by
    intro hpeer headers
    simp [resolveClientIp, hpeer]
  have hsame : ∀ headers headers' hops hops', forwardedHops headers = .ok hops →
      forwardedHops headers' = .ok hops' → fromClient trusted hops = fromClient trusted hops' →
        resolveClientIp peer headers trusted = resolveClientIp peer headers' trusted := by
    intro headers headers' hops hops' hhops hhops' hfrom
    cases hpeer : isTrusted (canonicalIp peer) trusted with
    | false => rw [huntrusted hpeer, huntrusted hpeer]
    | true =>
      rw [resolveClientIp_of_trusted hpeer hhops, resolveClientIp_of_trusted hpeer hhops', hfrom]
  refine ⟨huntrusted, ?_, ?_, TrustedNetwork.contains_iff⟩
  · intro hpeer headers hops hhops
    rw [resolveClientIp_of_trusted hpeer hhops]
    by_cases hne : hops = []
    · exact ⟨_, rfl, .inl ⟨hne, by rw [hne]; rfl⟩⟩
    · obtain ⟨left, client, right, heq, hfrom, hright, hclient⟩ := fromClient_spec hops hne
      rw [hfrom]
      refine ⟨_, rfl, .inr ⟨left, right, heq, hright, ?_⟩⟩
      cases htrusted : isTrusted client trusted with
      | false => exact .inl htrusted
      | true => exact .inr ⟨htrusted, hclient.resolve_left (by simp [htrusted])⟩
  · intro headers headers' hops hops' hhops hhops'
    refine ⟨hsame headers headers' hops hops' hhops hhops', ?_⟩
    rintro left left' hop right rfl rfl hhop
    apply hsame headers headers' _ _ hhops hhops'
    rw [fromClient_append hhop, fromClient_append hhop]

namespace Sample

/-- 10.0.0.0/8 -/
def proxies : TrustedNetwork :=
  ⟨.v4 0x0a000000, 8, by decide, by decide⟩

/-- The IPv4-mapped spelling of 10.0.0.1. -/
def proxy : IpAddr := .v6 0xffff0a000001

/-- 203.0.113.9 -/
def visitor : IpAddr := .v4 0xcb007109

def header (text : String) : Bytes := text.toList.map fun c => c.toNat.toUInt8

def written : List Bytes := [header "198.51.100.7, 203.0.113.9", header "10.0.0.2"]

def unwritten : List Bytes := [header "203.0.113.9,10.0.0.2"]

example : TrustedNetwork.fromStr " ::ffff:10.0.0.0/8".toList =
    .ok proxies := by rfl

end Sample

set_option maxRecDepth 10000 in
open Sample in
theorem client_ip_is_rightmost_untrusted_sample :
    resolveClientIp proxy written [proxies] = .ok visitor ∧
    resolveClientIp proxy written [proxies] = resolveClientIp proxy unwritten [proxies] ∧
    resolveClientIp visitor written [proxies] = .ok visitor ∧
    proxies.contains proxy = true := by
  have hspec := client_ip_is_rightmost_untrusted [proxies] proxy
  have hsame := (hspec.2.2.1 written unwritten
    [.v4 0xc6336407, visitor, .v4 0x0a000002] [visitor, .v4 0x0a000002]
    (by decide +kernel) (by decide +kernel)).1 (by decide +kernel)
  have hvisitor := (client_ip_is_rightmost_untrusted [proxies] visitor).1 (by decide +kernel)
    written
  have hcontains := (hspec.2.2.2 proxies proxy).2 (by decide +kernel)
  exact ⟨by decide +kernel, hsame, hvisitor, hcontains⟩

end MediaBackup
