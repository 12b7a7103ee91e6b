import CppServerFramework.HTTP.UriTable
import CppServerFramework.Misc.RegexExact

/-!
# The grammar of URIs

The rules of `uri.rl:9-119` for the parts of a URI, and that the scanner reads exactly the texts of
each: from the state in which a part begins, a text may end in front of what may stand behind it
exactly if it is one of the part.
-/

namespace CppServerFramework.HTTP

namespace UriGrammar
open Regex UriAction

def digit : List (Nat × Nat) := [(48, 57)]

def xdigit : List (Nat × Nat) := [(48, 57), (65, 70), (97, 102)]

def alpha : List (Nat × Nat) := [(65, 90), (97, 122)]

def subDelims : List (Nat × Nat) := [(33, 33), (36, 36), (38, 44), (59, 59), (61, 61)]

def unreserved : List (Nat × Nat) := alpha ++ digit ++ [(45, 46), (95, 95), (126, 126)]

def pctEncoded : Regex := seqs [chr 37, set xdigit, set xdigit]

/-- `r{n}` -/
def times (n : Nat) (r : Regex) : Regex := seqs (List.replicate n r)

def scheme : Regex := seq (set alpha) (star (set (alpha ++ digit ++ [(43, 43), (45, 46)])))

def userinfo : Regex := star (alt (set (unreserved ++ subDelims ++ [(58, 58)])) pctEncoded)

/-- The number `2` that stands without quotes in the rule is the byte. -/
def decOctet : Regex :=
  alts [set digit, seq (set [(49, 57)]) (set digit), seqs [chr 49, set digit, set digit],
    seqs [chr 2, set [(48, 52)], set digit], seqs [chr 50, chr 53, set [(48, 53)]]]

def ipv4Address : Regex := seqs [decOctet, chr 46, decOctet, chr 46, decOctet, chr 46, decOctet]

def h16 : Regex := seq (set xdigit) (atMost 3 (set xdigit))

def h16Colon : Regex := seq h16 (chr 58)

def ls32 : Regex := alt (seqs [h16, chr 58, h16]) ipv4Address

def colons : Regex := seq (chr 58) (chr 58)

/-- The counts in front of `::` are exact. -/
def ipv6Address : Regex :=
  alts [seq (times 6 h16Colon) ls32,
    seqs [colons, times 5 h16Colon, ls32],
    seqs [opt h16, colons, times 4 h16Colon, ls32],
    seqs [opt (seq (times 1 h16Colon) h16), colons, times 3 h16Colon, ls32],
    seqs [opt (seq (times 2 h16Colon) h16), colons, times 2 h16Colon, ls32],
    seqs [opt (seq (times 3 h16Colon) h16), colons, times 1 h16Colon, ls32],
    seqs [opt (seq (times 4 h16Colon) h16), colons, ls32],
    seqs [opt (seq (times 5 h16Colon) h16), colons, h16],
    seqs [opt (seq (times 6 h16Colon) h16), colons]]

def ipvFuture : Regex :=
  seqs [chr 118, plus (set xdigit), chr 46, plus (set (unreserved ++ subDelims ++ [(58, 58)]))]

/-- What stands in brackets. -/
def ipLiteral : Regex := alt ipv6Address ipvFuture

def regName : Regex := star (alt (set (unreserved ++ subDelims)) pctEncoded)

def host : Regex := alt (seqs [chr 91, ipLiteral, chr 93]) (alt ipv4Address regName)

def port : Regex := star (set digit)

def pchar : Regex :=
  alt (set ((128, 255) :: unreserved ++ subDelims ++ [(58, 58), (64, 64)])) pctEncoded

def segment : Regex := star pchar

def segmentNz : Regex := plus pchar

/-- `(pchar - ":")+` -/
def segmentNzNc : Regex :=
  plus (alt (set ((128, 255) :: unreserved ++ subDelims ++ [(64, 64)])) pctEncoded)

/-- `("/" segment)*` -/
def pathAbempty : Regex := star (seq (chr 47) segment)

def pathAbsolute : Regex := seq (chr 47) (opt (seq segmentNz pathAbempty))

def pathNoscheme : Regex := seq segmentNzNc pathAbempty

def pathRootless : Regex := seq segmentNz pathAbempty

def pathEmpty : Regex := eps

def query : Regex := star (alt pchar (set [(47, 47), (63, 63)]))

def fragment : Regex := star (alt pchar (set [(47, 47), (63, 63)]))

/-! ## The bytes -/

/-- The set of all bytes but some. -/
def without (bytes : List Nat) : Nat := mask [(0, 255)] ^^^ mask (bytes.map fun b => (b, b))

theorem testBit_without {bytes : List Nat} {b : UInt8} (h : b.toNat ∉ bytes) :
    (without bytes).testBit b.toNat = true := by
  have hnone : inRanges (bytes.map fun b => (b, b)) b = false := by
    refine Bool.eq_false_iff.mpr fun hin => h ?_
    obtain ⟨r, hr, hb⟩ := List.any_eq_true.mp hin
    obtain ⟨c, hc, rfl⟩ := List.mem_map.mp hr
    simp only [Bool.and_eq_true, decide_eq_true_eq] at hb
    rwa [Nat.le_antisymm hb.2 hb.1]
  have hall : inRanges [(0, 255)] b = true := by
    have := b.toNat_lt
    simp [inRanges]
    omega
  rw [without, Nat.testBit_xor, testBit_mask, testBit_mask, hnone, hall]
  rfl

/-! ## The scanner -/

/-- A text goes on or ends in the state, with a slash, a question mark, a number sign or its
    end. -/
def ends (t : Nat) : Bool :=
  451 ≤ t || (uriParserScanner.next t 47).1 ≠ 0 || (uriParserScanner.next t 63).1 ≠ 0 ||
    (uriParserScanner.next t 35).1 ≠ 0

/-- In the state the actions `acts` are taken at the end and in front of a query or a fragment. -/
def endsWith (t : Nat) (acts : List UriAction) : Bool :=
  451 ≤ t && uriParserEof t = acts && uriParserScanner.next t 63 = (456, acts) &&
    uriParserScanner.next t 35 = (453, acts)

/-- Whether a part may end in a state, where two tests agree on that: the second tells what
    happens then, and without the first nothing can stand behind the part. -/
def exitsBy (may does : Nat → Bool) (t : Nat) : Option Bool :=
  if may t = does t then some (does t) else none

/-- The states of a relative reference, or of what stands behind a scheme.  `entry` and `fin` are
    what is done where the path behind an authority begins and ends. -/
structure Hier where
  root : Nat
  slash : Nat
  start : Nat
  afterAt : Nat
  literal : Nat
  literalEnd : Nat
  firstPort : Nat
  port : Nat
  path : Nat
  entry : List UriAction
  fin : List UriAction

def relative : Hier := ⟨451, 458, 459, 469, 38, 460, 468, 461, 455, [], []⟩

def absolute : Hier := ⟨509, 510, 511, 522, 260, 512, 521, 514, 513, [markH], [savePath]⟩

def schemeExits : Nat → Option Bool :=
  exitsBy (fun t => (uriParserScanner.next t 58).1 ≠ 0) fun t => t = 508

/-- A path without an authority may go on behind a slash, which is as if it had begun there. -/
def segmentExits : Nat → Option Bool :=
  exitsBy ends fun t => endsWith t [] && uriParserScanner.next t 47 = (455, [])

def pathExits (s : Nat) : Nat → Option Bool := exitsBy ends fun t => t = s

def queryExits : Nat → Option Bool :=
  exitsBy (fun t => 451 ≤ t || (uriParserScanner.next t 35).1 ≠ 0) fun t =>
    451 ≤ t && uriParserEof t = [saveQuery] && uriParserScanner.next t 35 = (453, [saveQuery])

def fragmentExits : Nat → Option Bool :=
  exitsBy (fun t => 451 ≤ t) fun t => 451 ≤ t && uriParserEof t = [saveFragment]

/-- A part whose first byte takes the actions `first` and no other byte takes any. -/
def decidesPart (first : List UriAction) (exits : Nat → Option Bool) (first' bytes : List Nat)
    (s : Nat) (r : Regex) : Bool :=
  uriParserScanner.decides 10000 (· = first) (fun _ => false) exits (without first')
    (without bytes) s r

/-- The scheme, or the first segment of a relative reference. -/
def decidesScheme : Bool :=
  decidesPart [markU] schemeExits [58, 47, 63, 35] [58, 47, 63, 35] 451 scheme

def decidesSegment : Bool :=
  uriParserScanner.decides 100 (fun as => as.all (· = markU)) (· = markU) segmentExits
    (without [58, 47, 63, 35]) (without [58, 47, 63, 35]) 451 segmentNzNc

/-- The rest of a path, in the end in state `t`. -/
def decidesPath (s t : Nat) (first : List Nat) : Bool :=
  decidesPart [] (pathExits t) first [63, 35] s (seq segment pathAbempty)

def decidesQuery : Bool := decidesPart [markU] queryExits [35] [35] 456 query

def decidesFragment : Bool := decidesPart [markU] fragmentExits [] [] 453 fragment

theorem decides_parts :
    decidesScheme = true ∧ decidesSegment = true ∧ decidesPath 455 455 [63, 35] = true ∧
      decidesPath 509 455 [47, 63, 35] = true ∧ decidesQuery = true ∧ decidesFragment = true := by
  decide +kernel

/-- A host that is not in brackets. -/
def plainHost : Regex := alt ipv4Address regName

namespace Hier

variable (a : Hier)

/-- Behind an authority the path, a query, a fragment or the end may come; `acts` are taken in
    front of them. -/
def leaves (t : Nat) (acts : List UriAction) : Bool :=
  endsWith t (acts ++ a.fin) && uriParserScanner.next t 47 = (a.path, acts)

def userinfoExits : Nat → Option Bool :=
  exitsBy (fun t => (uriParserScanner.next t 64).1 ≠ 0) fun t =>
    uriParserScanner.next t 64 = (a.afterAt, [saveUserinfo])

/-- What may belong to the user may be a host as well. -/
def nameExits : Nat → Option Bool :=
  exitsBy (fun t => (uriParserScanner.next t 64).1 ≠ 0 || (uriParserScanner.next t 58).1 ≠ 0)
    fun t => uriParserScanner.next t 64 = (a.afterAt, [saveUserinfo]) &&
      uriParserScanner.next t 58 = (a.firstPort, [saveHost])

def hostExits (ports : List Nat) : Nat → Option Bool :=
  exitsBy (fun t => ends t || (uriParserScanner.next t 58).1 ≠ 0) fun t =>
    a.leaves t (saveHost :: a.entry) &&
      ports.any fun port => uriParserScanner.next t 58 = (port, [saveHost])

def literalExits : Nat → Option Bool :=
  exitsBy (fun t => ends t || (uriParserScanner.next t 93).1 ≠ 0) fun t =>
    !ends t && uriParserScanner.next t 93 = (a.literalEnd, [])

def portExits : Nat → Option Bool := exitsBy ends fun t => a.leaves t (savePort :: a.entry)

def decidesUserinfo : Bool :=
  uriParserScanner.decides 10000 (fun _ => true) (fun _ => true) a.userinfoExits
    (without [47, 63, 35, 64, 91]) (without [47, 63, 35, 64]) a.start userinfo

/-- The text of the user in front of a colon.  The byte 2 may begin a host, but not this. -/
def decidesName : Bool :=
  decidesPart [markH] a.nameExits [2, 47, 63, 35, 64, 58, 91] [2, 47, 63, 35, 64, 58] a.start
    userinfo

/-- Behind a colon a digit may begin a port, and the mark is set there. -/
def decidesDigit : Bool :=
  uriParserScanner.decides 10000 (· = [markH]) (fun _ => false) a.userinfoExits (mask digit)
    (without [47, 63, 35, 64]) a.firstPort userinfo

def decidesNoDigit : Bool :=
  decidesPart [] a.userinfoExits [47, 63, 35, 64, 48, 49, 50, 51, 52, 53, 54, 55, 56, 57]
    [47, 63, 35, 64] a.firstPort userinfo

/-- Until an at sign comes, the text behind a colon may be a port or belong to the user. -/
def decidesPlainHost : Bool :=
  decidesPart [markH] (a.hostExits [a.firstPort, a.port]) [47, 63, 35, 64, 58, 91]
    [47, 63, 35, 64, 58] a.start plainHost

def decidesPlainHostAfterAt : Bool :=
  decidesPart [markH] (a.hostExits [a.port]) [47, 63, 35, 58, 91] [47, 63, 35, 58] a.afterAt
    plainHost

def decidesIpLiteral : Bool :=
  decidesPart [] a.literalExits [47, 63, 35, 93] [47, 63, 35, 93] a.literal ipLiteral

/-- Nothing stands between the bracket that closes a literal and a colon or the path. -/
def decidesLiteralEnd : Bool :=
  decidesPart [] (a.hostExits []) [47, 63, 35, 58] [47, 63, 35, 58] a.literalEnd eps

def decidesPort (s : Nat) (bytes : List Nat) : Bool :=
  decidesPart [markH] a.portExits bytes bytes s UriGrammar.port

/-- From its states the scanner reads exactly the parts of an authority and of a path. -/
structure Checked : Prop where
  userinfo : a.decidesUserinfo = true
  name : a.decidesName = true
  digit : a.decidesDigit = true
  noDigit : a.decidesNoDigit = true
  plainHost : a.decidesPlainHost = true
  plainHostAfterAt : a.decidesPlainHostAfterAt = true
  ipLiteral : a.decidesIpLiteral = true
  literalEnd : a.decidesLiteralEnd = true
  firstPort : a.decidesPort a.firstPort [47, 63, 35, 64] = true
  port : a.decidesPort a.port [47, 63, 35] = true
  path : decidesPath a.path a.path [63, 35] = true
  slash : decidesPath a.slash 455 [47, 63, 35] = true

/-- What the bytes that delimit the parts do in the states in which a part is empty. -/
structure Delimiting : Prop where
  root : endsWith a.root [] = true ∧ uriParserScanner.next a.root 47 = (a.slash, [])
  slash : endsWith a.slash [] = true ∧ uriParserScanner.next a.slash 47 = (a.start, [])
  start : a.leaves a.start [markH, saveHost] = true ∧
    uriParserScanner.next a.start 58 = (a.firstPort, [markH, saveHost]) ∧
    uriParserScanner.next a.start 64 = (a.afterAt, [markH, saveUserinfo]) ∧
    uriParserScanner.next a.start 91 = (a.literal, [markH])
  afterAt : a.leaves a.afterAt [markH, saveHost] = true ∧
    uriParserScanner.next a.afterAt 58 = (a.port, [markH, saveHost]) ∧
    uriParserScanner.next a.afterAt 91 = (a.literal, [markH])
  literal : ends a.literal = false ∧ (uriParserScanner.next a.literal 93).1 = 0
  literalEnd : a.leaves a.literalEnd (saveHost :: a.entry) = true ∧
    uriParserScanner.next a.literalEnd 58 = (a.port, [saveHost])
  firstPort : a.leaves a.firstPort [markH, savePort] = true ∧
    uriParserScanner.next a.firstPort 64 = (a.afterAt, [saveUserinfo])
  port : a.leaves a.port [markH, savePort] = true
  path : endsWith a.path a.fin = true

variable {a}

theorem checked (h : a = relative ∨ a = absolute) : a.Checked := by
  rcases h with rfl | rfl <;> constructor <;> decide +kernel

theorem delimiting (h : a = relative ∨ a = absolute) : a.Delimiting := by
  rcases h with rfl | rfl <;> constructor <;> decide +kernel

end Hier

end UriGrammar

end CppServerFramework.HTTP
