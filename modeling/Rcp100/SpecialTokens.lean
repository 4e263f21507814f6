import Mathlib.Algebra.Ring.Int.Defs
import Mathlib.Algebra.Ring.Nat
import Rcp100.BitPrefix

/-!
# Special tokens of the command line

A token such as `<ip>` or `<i,1,99>` stands for the words that its check function accepts.
The table of the check functions is walked from the top; the first format whose first
characters are those of the token decides. A word is written without blanks, numbers are
read the way `sscanf` reads them.
-/

namespace SpecialTokens

abbrev Word := List Char

section Scanning

def isSpace (c : Char) : Bool :=
  c = ' ' || c = '\t' || c = '\n' || c = '\r' || c.toNat = 11 || c.toNat = 12

def digitValue (base : Nat) (c : Char) : Option Nat :=
  let v :=
    if '0' ≤ c ∧ c ≤ '9' then c.toNat - '0'.toNat
    else if 'a' ≤ c ∧ c ≤ 'f' then c.toNat - 'a'.toNat + 10
    else if 'A' ≤ c ∧ c ≤ 'F' then c.toNat - 'A'.toNat + 10
    else base
  if v < base then some v else none

def isdigit (c : Char) : Bool := (digitValue 10 c).isSome

/-- The digits at the start, at most `width` of them: their value, how many there are, and
the rest. -/
def scanDigits (base : Nat) : Nat → Nat → List Char → Nat × Nat × List Char
  | _, acc, [] => (acc, 0, [])
  | 0, acc, str => (acc, 0, str)
  | width+1, acc, c :: str =>
    match digitValue base c with
    | none => (acc, 0, c :: str)
    | some d =>
      let r := scanDigits base width (base * acc + d) str
      (r.1, r.2.1 + 1, r.2.2)

def scanSign : Nat → List Char → Bool × Nat × List Char
  | width+1, '-' :: str => (true, width, str)
  | width+1, '+' :: str => (false, width, str)
  | width, str => (false, width, str)

/-- The sign and the value of a decimal number. -/
def scanDecimal (str : List Char) : Option (Bool × Nat × List Char) :=
  let str := str.dropWhile isSpace
  let s := scanSign str.length str
  let r := scanDigits 10 s.2.1 0 s.2.2
  if r.2.1 = 0 then none else some (s.1, r.1, r.2.2)

/-- The conversion `%x` of at most `width` characters. The letter `x` may follow a first
zero. -/
def scanHexadecimal (width : Nat) (str : List Char) : Option (Bool × Nat × List Char) :=
  let s := scanSign width (str.dropWhile isSpace)
  match s.2.1, s.2.2 with
  | 0, _ => none
  | left+1, '0' :: str =>
    match left, str with
    | left+1, c :: rest =>
      if c = 'x' ∨ c = 'X' then
        let r := scanDigits 16 left 0 rest
        some (s.1, r.1, r.2.2)
      else
        let r := scanDigits 16 (left+1) 0 (c :: rest)
        some (s.1, r.1, r.2.2)
    | _, str => some (s.1, 0, str)
  | left+1, str =>
    let r := scanDigits 16 (left+1) 0 str
    if r.2.1 = 0 then none else some (s.1, r.1, r.2.2)

/-- A signed number is cut to a `long` and then to an `int`. -/
def toInt (negative : Bool) (magnitude : Nat) : BitVec 32 :=
  BitVec.ofInt 32
    (if negative then max (-(magnitude : Int)) (-2 ^ 63) else min (magnitude : Int) (2 ^ 63 - 1))

/-- An unsigned number is cut to an `unsigned long` and then to an `unsigned`. -/
def toUnsigned (negative : Bool) (magnitude : Nat) : BitVec 32 :=
  if magnitude < 2 ^ 64 then
    BitVec.ofInt 32 (if negative then -(magnitude : Int) else magnitude)
  else BitVec.allOnes 32

/-- The conversion `%d`. -/
def scanInt (str : List Char) : Option (BitVec 32 × List Char) :=
  (scanDecimal str).map fun r => (toInt r.1 r.2.1, r.2.2)

/-- The conversion `%u`. -/
def scanUnsigned (str : List Char) : Option (BitVec 32 × List Char) :=
  (scanDecimal str).map fun r => (toUnsigned r.1 r.2.1, r.2.2)

/-- The conversion `%x`. -/
def scanHex (width : Nat) (str : List Char) : Option (BitVec 32 × List Char) :=
  (scanHexadecimal width str).map fun r => (toUnsigned r.1 r.2.1, r.2.2)

def literal (c : Char) : List Char → Option (List Char)
  | [] => none
  | d :: str => if d = c then some str else none

def atoi (str : List Char) : BitVec 32 := ((scanInt str).map (·.1)).getD 0

/-- `sscanf` with the format `%d.%d.%d.%d` or `%u.%u.%u.%u`, by the conversion. -/
def scanQuad (scan : List Char → Option (BitVec 32 × List Char)) (str : List Char) :
    Option ((BitVec 32 × BitVec 32 × BitVec 32 × BitVec 32) × List Char) := do
  let (a, str) ← scan str
  let str ← literal '.' str
  let (b, str) ← scan str
  let str ← literal '.' str
  let (c, str) ← scan str
  let str ← literal '.' str
  let (d, str) ← scan str
  return ((a, b, c, d), str)

/-- `sscanf` with the format `%d.%d.%d.%d/%d` or `%u.%u.%u.%u/%u`. -/
def scanCidr (scan : List Char → Option (BitVec 32 × List Char)) (str : List Char) :
    Option ((BitVec 32 × BitVec 32 × BitVec 32 × BitVec 32) × BitVec 32) := do
  let (quad, str) ← scanQuad scan str
  let str ← literal '/' str
  let (e, _) ← scan str
  return (quad, e)

/-- `sscanf` with the format `%x:%x:%x:%x:%x:%x`, or with `%2x`. -/
def scanMac (width : Nat → Nat) (str : List Char) : Option (List (BitVec 32)) := do
  let scan := fun str : List Char => scanHex (width str.length) str
  let (a, str) ← scan str
  let str ← literal ':' str
  let (b, str) ← scan str
  let str ← literal ':' str
  let (c, str) ← scan str
  let str ← literal ':' str
  let (d, str) ← scan str
  let str ← literal ':' str
  let (e, str) ← scan str
  let str ← literal ':' str
  let (f, _) ← scan str
  return [a, b, c, d, e, f]

end Scanning

section Addresses

def quadAddress (a b c d : BitVec 32) : BitVec 32 :=
  a * 0x1000000 + b * 0x10000 + c * 0x100 + d

def maskLoop : Nat → BitVec 32 → BitVec 32 → BitVec 32
  | 0, _, mask => mask
  | steps+1, tmp, mask => maskLoop steps (tmp >>> 1) (mask ||| tmp)

/-- The address and the mask. -/
def atocidr (str : Word) : Option (BitVec 32 × BitVec 32) :=
  match scanCidr scanUnsigned str with
  | none => none
  | some ((a, b, c, d), e) =>
    if a > 255 ∨ b > 255 ∨ c > 255 ∨ d > 255 ∨ e > 32 then none
    else some (quadAddress a b c d, maskLoop e.toNat 0x80000000 0)

def atoip (str : Word) : Option (BitVec 32) :=
  match scanQuad scanUnsigned str with
  | none => none
  | some ((a, b, c, d), _) =>
    if a > 255 ∨ b > 255 ∨ c > 255 ∨ d > 255 then none else some (quadAddress a b c d)

def atomac (str : Word) : Option (List (BitVec 8)) :=
  match scanMac (fun _ => 2) str with
  | none => none
  | some mac => if mac.any (· > 0xff) then none else some (mac.map (·.setWidth 8))

def isMulticast (ip : BitVec 32) : Bool := ip &&& 0xf0000000 = 0xe0000000

def isBroadcast (ip : BitVec 32) : Bool :=
  if ip &&& 0x80000000 = 0 then ip &&& 0x00ffffff = 0x00ffffff
  else if ip &&& 0xc0000000 = 0x80000000 then ip &&& 0x0000ffff = 0x0000ffff
  else if ip &&& 0xe0000000 = 0xc0000000 then ip &&& 0x000000ff = 0x000000ff
  else false

end Addresses

/-- What the check functions look up outside the two strings: whether `stat` finds a
regular file, and the names of the interfaces in the configuration. -/
structure Env where
  isReg : Word → Bool
  interfaces : List Word

section Checks

/-- `rcpInputNotClean`. -/
def inputNotClean (str : Word) : Bool :=
  str.any fun c => !(('a' ≤ c && c ≤ 'z') || ('A' ≤ c && c ≤ 'Z') || ('0' ≤ c && c ≤ '9') ||
    c = '_' || c = '-' || c = '.' || c = '@')

/-- The checks of a length only. -/
def chkLength (least most : Nat) (str : Word) : Bool := least ≤ str.length && str.length ≤ most

def chkWord (_ _ : Word) : Bool := true
def chkTunPassword (_ str : Word) : Bool := chkLength 0 24 str
def chkRipPassword (_ str : Word) : Bool := chkLength 0 16 str
def chkOspfPassword (_ str : Word) : Bool := chkLength 0 8 str
def chkOspfMd5Password (_ str : Word) : Bool := chkLength 0 16 str
def chkSnmpPassword (_ str : Word) : Bool := chkLength 8 64 str
def chkSnmpCommunity (_ str : Word) : Bool := chkLength 0 16 str
def chkAdministrator (_ str : Word) : Bool := chkLength 0 31 str
def chkPassword (_ str : Word) : Bool := chkLength 0 128 str

def chkHostname (_ str : Word) : Bool := chkLength 0 16 str && !inputNotClean str
def chkTunnelName (_ str : Word) : Bool := chkLength 0 15 str && !inputNotClean str
def chkDomainName (_ str : Word) : Bool :=
  chkLength 0 63 str && !inputNotClean str && !str.any (· = '@')

def chkFile (_ str : Word) : Bool :=
  !str.any (fun c => "\\*&!?\"\x27<>%^()\x7b\x7d[];, ".toList.contains c) &&
    str.head? ≠ some '.'

def chkExistingFile (env : Env) (token str : Word) : Bool := chkFile token str && env.isReg str

def chkTftpFile (token str : Word) : Bool :=
  "tftp://".toList.isPrefixOf str && chkFile token str && (str.drop 7).any (· = '/')

/-- The part of a URL after the scheme: a user and a password, a host, a file. -/
def chkUserUrl (ptr : List Char) : Bool :=
  let atColon := ptr.dropWhile (· ≠ ':')
  let atHost := atColon.dropWhile (· ≠ '@')
  let atFile := atHost.dropWhile (· ≠ '/')
  atColon ≠ [] && atHost ≠ [] && atFile ≠ [] && ptr.count '@' = 1 && ptr.count ':' = 1

def chkFtpFile (token str : Word) : Bool :=
  "ftp://".toList.isPrefixOf str && chkFile token str && chkUserUrl (str.drop 6)

def chkSftpFile (token str : Word) : Bool :=
  "sftp://".toList.isPrefixOf str && chkFile token str && chkUserUrl (str.drop 7)

def isCidrFormat (str : Word) : Bool :=
  str.all (fun c => c = '.' || c = '/' || isdigit c) &&
    str.count '.' = 3 && str.count '/' = 1 && (scanCidr scanInt str).isSome

def chkIp (_ str : Word) : Bool :=
  !isCidrFormat str && str.all (fun c => c = '.' || isdigit c) && str.count '.' = 3 &&
    match scanQuad scanInt str with
    | none => false
    | some ((a, b, c, d), _) =>
      !(a > 255 || b > 255 || c > 255 || d > 255) &&
        (let ip := (atoip str).getD 0
         !(isMulticast ip || isBroadcast ip))

def chkMac (_ str : Word) : Bool :=
  match scanMac (fun length => length) str with
  | none => false
  | some mac => !mac.any (· > 255)

def isnum (str : Word) : Bool := str ≠ [] && str.all isdigit

/-- The two numbers of a token such as `<i,1,99>`. -/
def scanBounds (scan : List Char → Option (BitVec 32 × List Char)) (token : Word) :
    Option (BitVec 32 × BitVec 32) := do
  let (a, str) ← scan (token.drop 3)
  let str ← literal ',' str
  let (b, _) ← scan str
  return (a, b)

def chkInt2 (token str : Word) : Bool :=
  match scanBounds scanInt token with
  | none => false
  | some (a, b) => isnum str && !((atoi str).slt a || b.slt (atoi str))

def chkUint2 (token str : Word) : Bool :=
  match scanBounds scanUnsigned token with
  | none => false
  | some (a, b) =>
    let val := ((scanUnsigned str).map (·.1)).getD 0
    isnum str && !(val < a || val > b)

def chkString2 (token str : Word) : Bool :=
  match scanBounds scanUnsigned token with
  | none => false
  | some (a, b) =>
    let len := BitVec.ofNat 32 str.length
    !(len < a || len > b)

def interfaceVirtual (name : Word) : Bool := "lo:".toList.isPrefixOf name

def chkInterface (env : Env) (_ str : Word) : Bool :=
  str.length ≤ 15 &&
    env.interfaces.any fun name => name ≠ [] && !interfaceVirtual name && name = str

/-- The loop of `chk_mask` over the bits from the top. -/
def chkMaskLoop (mask : BitVec 32) : Nat → BitVec 32 → Bool → Bool
  | 0, _, _ => true
  | steps+1, m, zero =>
    if zero && m &&& mask = 0 then false
    else chkMaskLoop mask steps (m >>> 1) (zero || m &&& mask = 1)

def chkMask (_ str : Word) : Bool :=
  !isCidrFormat str && str.all (fun c => c = '.' || isdigit c) && str.count '.' = 3 &&
    match scanQuad scanInt str with
    | none => false
    | some ((a, b, c, d), _) =>
      !(a > 255 || b > 255 || c > 255 || d > 255) &&
        chkMaskLoop (a <<< 24 ||| b <<< 16 ||| c <<< 8 ||| d) 32 0x80000000 false

/-- The bounds that the three checks of an address with a prefix length share. -/
def cidrBounds (str : Word) : Bool :=
  isCidrFormat str &&
    match scanCidr scanInt str with
    | none => false
    | some ((a, b, c, d), e) => !(a > 255 || b > 255 || c > 255 || d > 255 || e > 32)

def chkCidr (_ str : Word) : Bool :=
  cidrBounds str &&
    (let ip := ((atocidr str).map (·.1)).getD 0
     !(isMulticast ip || isBroadcast ip))

def chkCidrloopback (_ str : Word) : Bool := cidrBounds str

def chkCidrnet (_ str : Word) : Bool :=
  cidrBounds str &&
    match atocidr str with
    | none => false
    | some (ip, mask) => ip &&& ~~~mask = 0 && !isMulticast ip

def chkUserathost (_ str : Word) : Bool :=
  str.length ≠ 0 && !inputNotClean str && str.head? ≠ some '@' &&
    match str.dropWhile (· ≠ '@') with
    | [] | [_] => false
    | _ => true

/-- The checks of a number of digits between two bounds. -/
def chkRange (least most : BitVec 32) (str : Word) : Bool :=
  str.all isdigit &&
    match scanInt str with
    | none => false
    | some (v, _) => !(v.slt least || most.slt v)

def chkPort (_ str : Word) : Bool := chkRange 1 65535 str

/-- `strtok` with a comma. -/
def splitCommas (str : Word) : List Word := (str.splitOn ',').filter (· ≠ [])

def states : List Word :=
  ["new".toList, "established".toList, "related".toList, "invalid".toList]

def chkConstate (_ str : Word) : Bool := (splitCommas str).all states.contains

def chkIcmpType (_ str : Word) : Bool := chkRange 0 255 str

end Checks

/-- An entry of the table; the texts for the user are left out. -/
structure CHK where
  format : Word
  cnt : Nat
  function : Env → Word → Word → Bool

def chk : List CHK :=
  [⟨"<i, numbers here...>".toList, 3, fun _ => chkInt2⟩,
    ⟨"<u, numbers here...>".toList, 3, fun _ => chkUint2⟩,
    ⟨"<s, numbers here...>".toList, 3, fun _ => chkString2⟩,
    ⟨"<word>".toList, 6, fun _ => chkWord⟩,
    ⟨"<existing-file>".toList, 15, chkExistingFile⟩,
    ⟨"<tftp-file>".toList, 11, fun _ => chkTftpFile⟩,
    ⟨"<ftp-file>".toList, 10, fun _ => chkFtpFile⟩,
    ⟨"<sftp-file>".toList, 11, fun _ => chkSftpFile⟩,
    ⟨"<file>".toList, 6, fun _ => chkFile⟩,
    ⟨"<interface>".toList, 11, chkInterface⟩,
    ⟨"<interface2>".toList, 11, chkInterface⟩,
    ⟨"<hostname>".toList, 10, fun _ => chkHostname⟩,
    ⟨"<tunnel-name>".toList, 13, fun _ => chkTunnelName⟩,
    ⟨"<domain>".toList, 8, fun _ => chkDomainName⟩,
    ⟨"<userathost>".toList, 12, fun _ => chkUserathost⟩,
    ⟨"<administrator>".toList, 15, fun _ => chkAdministrator⟩,
    ⟨"<password>".toList, 10, fun _ => chkPassword⟩,
    ⟨"<tun-password>".toList, 14, fun _ => chkTunPassword⟩,
    ⟨"<rip-password>".toList, 14, fun _ => chkRipPassword⟩,
    ⟨"<ospf-password>".toList, 15, fun _ => chkOspfPassword⟩,
    ⟨"<ospf-md5-password>".toList, 19, fun _ => chkOspfMd5Password⟩,
    ⟨"<snmp-password>".toList, 15, fun _ => chkSnmpPassword⟩,
    ⟨"<snmp-community>".toList, 16, fun _ => chkSnmpCommunity⟩,
    ⟨"<mac>".toList, 5, fun _ => chkMac⟩,
    ⟨"<ip>".toList, 4, fun _ => chkIp⟩,
    ⟨"<ip1>".toList, 4, fun _ => chkIp⟩,
    ⟨"<ip2>".toList, 4, fun _ => chkIp⟩,
    ⟨"<mask>".toList, 6, fun _ => chkMask⟩,
    ⟨"<ipnexthop>".toList, 11, fun _ => chkIp⟩,
    ⟨"<cidr>".toList, 6, fun _ => chkCidr⟩,
    ⟨"<cidrloopback>".toList, 6, fun _ => chkCidrloopback⟩,
    ⟨"<cidrnet>".toList, 9, fun _ => chkCidrnet⟩,
    ⟨"<cidrnet-destination>".toList, 21, fun _ => chkCidrnet⟩,
    ⟨"<port>".toList, 6, fun _ => chkPort⟩,
    ⟨"<port-destination>".toList, 18, fun _ => chkPort⟩,
    ⟨"<connection-state>".toList, 18, fun _ => chkConstate⟩,
    ⟨"<icmp-type>".toList, 11, fun _ => chkIcmpType⟩]

/-- The test `strncmp(token, chk[i].format, chk[i].cnt) == 0`. -/
def CHK.fits (f : CHK) (token : Word) : Bool := token.take f.cnt = f.format.take f.cnt

/-- The word is accepted by the token. -/
def cliCheckSpecial (env : Env) (token str : Word) : Bool :=
  match chk.find? (·.fits token) with
  | none => false
  | some f =>
    if token.take f.cnt = str.take f.cnt ∧ token = str then true else f.function env token str

/-- The formats know the token. -/
def Known (token : Word) : Prop := ∃ f ∈ chk, f.fits token = true

instance (token : Word) : Decidable (Known token) :=
  inferInstanceAs (Decidable (∃ f ∈ chk, f.fits token = true))

theorem cliCheckSpecial_self (env : Env) (token : Word) :
    cliCheckSpecial env token token = true ↔ Known token := by
  rw [cliCheckSpecial, Known]
  cases found : chk.find? (·.fits token) with
  | none =>
    rw [List.find?_eq_none] at found
    constructor
    · intro accepted
      cases accepted
    · rintro ⟨f, member, fits⟩
      exact absurd fits (found f member)
  | some f =>
    have fits := List.find?_some found
    have member := List.mem_of_find?_eq_some found
    simp only [and_self, if_true, true_iff]
    exact ⟨f, member, fits⟩

section Literals

variable {token str : Word} {rest : List Char}

theorem not_isdigit : isdigit '<' = false := by decide

theorem not_allDigits : ('<' :: rest).all isdigit = false := by
  rw [List.all_cons, not_isdigit, Bool.false_and]

theorem isnum_cons : isnum ('<' :: rest) = false := by
  rw [isnum, not_allDigits, Bool.and_false]

end Literals

end SpecialTokens
