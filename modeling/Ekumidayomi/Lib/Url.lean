import Mathlib.Data.List.TakeWhile
import Ekumidayomi.Lib.Percent
import Ekumidayomi.Lib.Python

/-!
# URLs of Python

`urllib.parse`: `urlsplit` with the properties of its result. What needs tables of Unicode or the
syntax of addresses is a parameter (`Names`). A network location without a user, with a host among
given ones and with a given port or none is written as these (`hosted_iff`), and so is a URL that is
split into the scheme `https` and such a location (`trusted_iff`): any reader finds that host in it.
-/

namespace Python

open Unicode

/-! ## Cutting texts -/

/-- `str.partition` at a character; the flag tells whether it is there. -/
def partition (sep : CodePoint) (t : Text) : Text × Bool × Text :=
  (t.takeWhile (· != sep), t.contains sep, (t.dropWhile (· != sep)).tail)

/-- `str.rpartition` at a character. -/
def rpartition (sep : CodePoint) (t : Text) : Text × Bool × Text :=
  if t.contains sep then
    let (last, _, front) := partition sep t.reverse
    (front.reverse, true, last.reverse)
  else ([], false, t)

section
variable {sep : CodePoint} {front rest t : Text}

theorem partition_append (h : sep ∉ front) :
    partition sep (front ++ sep :: rest) = (front, true, rest) := by
  have hfront : ∀ c ∈ front, (c != sep) = true := by
    intro c hc
    simpa using fun heq : c = sep => h (heq ▸ hc)
  rw [partition, List.takeWhile_append_of_pos hfront, List.dropWhile_append_of_pos hfront]
  simp

theorem partition_of_notMem (h : sep ∉ t) : partition sep t = (t, false, []) := by
  have ht : ∀ c ∈ t, (c != sep) = true := by
    intro c hc
    simpa using fun heq : c = sep => h (heq ▸ hc)
  rw [partition, List.takeWhile_eq_self_iff.2 ht, List.dropWhile_eq_nil_iff.2 ht]
  simp [h]

/-- A text is what stands before the first separator, the separator and what stands after it. -/
theorem partition_cases (sep : CodePoint) (t : Text) :
    (sep ∉ t ∧ partition sep t = (t, false, [])) ∨
      ∃ front rest, sep ∉ front ∧ t = front ++ sep :: rest ∧
        partition sep t = (front, true, rest) := by
  by_cases h : sep ∈ t
  · obtain ⟨front, rest, rfl, hfront⟩ := List.eq_append_cons_of_mem h
    exact .inr ⟨front, rest, hfront, rfl, partition_append hfront⟩
  · exact .inl ⟨h, partition_of_notMem h⟩

theorem rpartition_append (h : sep ∉ rest) :
    rpartition sep (front ++ sep :: rest) = (front, true, rest) := by
  have hrev : partition sep (front ++ sep :: rest).reverse = (rest.reverse, true, front.reverse) := by
    rw [List.reverse_append, List.reverse_cons, List.append_assoc, List.singleton_append]
    exact partition_append (by simpa using h)
  rw [rpartition, if_pos (by simp), hrev]
  simp

theorem rpartition_of_notMem (h : sep ∉ t) : rpartition sep t = ([], false, t) := by
  rw [rpartition, if_neg (by simpa using h)]

theorem rpartition_cases (sep : CodePoint) (t : Text) :
    (sep ∉ t ∧ rpartition sep t = ([], false, t)) ∨
      ∃ front rest, sep ∉ rest ∧ t = front ++ sep :: rest ∧
        rpartition sep t = (front, true, rest) := by
  by_cases h : sep ∈ t
  · obtain ⟨rest, front, hrev, hrest⟩ := List.eq_append_cons_of_mem (List.mem_reverse.2 h)
    have ht : t = front.reverse ++ sep :: rest.reverse := by
      rw [← List.reverse_reverse t, hrev]
      simp
    have hmem : sep ∉ rest.reverse := by simpa using hrest
    exact .inr ⟨front.reverse, rest.reverse, hmem, ht, by rw [ht, rpartition_append hmem]⟩
  · exact .inl ⟨h, rpartition_of_notMem h⟩

end

/-! ## Characters -/

def isAscii (c : CodePoint) : Bool := c.val < 0x80

def isAsciiAlpha (c : CodePoint) : Bool :=
  (0x41 ≤ c.val && c.val ≤ 0x5a) || (0x61 ≤ c.val && c.val ≤ 0x7a)

/-- `scheme_chars`. -/
def isSchemeChar (c : CodePoint) : Bool :=
  isAsciiAlpha c || isDigit c || c == ofChar '+' || c == ofChar '-' || c == ofChar '.'

def isHexDigit (c : CodePoint) : Bool :=
  isDigit c || (0x41 ≤ c.val && c.val ≤ 0x46) || (0x61 ≤ c.val && c.val ≤ 0x66)

/-- `str.lower`, on a character of ASCII. -/
def lowerChar (c : CodePoint) : CodePoint :=
  if h : 0x41 ≤ c.val ∧ c.val ≤ 0x5a then ⟨c.val + 0x20, by omega⟩ else c

theorem lowerChar_val (c : CodePoint) :
    (lowerChar c).val = c.val ∧ ¬ (0x41 ≤ c.val ∧ c.val ≤ 0x5a) ∨
      (lowerChar c).val = c.val + 0x20 ∧ 0x41 ≤ c.val ∧ c.val ≤ 0x5a := by
  unfold lowerChar
  split
  case isTrue h => exact .inr ⟨rfl, h⟩
  case isFalse h => exact .inl ⟨rfl, h⟩

/-- A character that is no letter stays itself, and no other becomes it. -/
theorem lowerChar_eq {c d : CodePoint} (hd : isAsciiAlpha d = false) : lowerChar c = d ↔ c = d := by
  simp only [isAsciiAlpha, Bool.or_eq_false_iff, Bool.and_eq_false_iff, decide_eq_false_iff_not] at hd
  rw [Fin.ext_iff, Fin.ext_iff]
  rcases lowerChar_val c with ⟨h, h'⟩ | ⟨h, h'⟩ <;> omega

theorem mem_map_lowerChar {d : CodePoint} {t : Text} (hd : isAsciiAlpha d = false) :
    d ∈ t.map lowerChar ↔ d ∈ t := by
  simp only [List.mem_map, lowerChar_eq hd, exists_eq_right]

theorem isAscii_lowerChar {c : CodePoint} : isAscii (lowerChar c) = isAscii c := by
  rw [isAscii, isAscii, decide_eq_decide]
  rcases lowerChar_val c with ⟨h, h'⟩ | ⟨h, h'⟩ <;> omega

/-- What `urlsplit` takes from tables: `str.lower`, the normal form NFKC and the syntax of IPv6. The
one character outside ASCII that is written in ASCII alone in lower case is the sign for kelvin, and
every IPv6 address has a colon. -/
structure Names where
  lower : Text → Text
  nfkc : Text → Text
  isIpv6 : Text → Bool
  lower_ascii : ∀ t, t.all isAscii = true → lower t = t.map lowerChar
  ascii_of_lower : ∀ t, (lower t).all isAscii = true → ofChar 'k' ∉ lower t → t.all isAscii = true
  colon_of_isIpv6 : ∀ t, isIpv6 t = true → ofChar ':' ∈ t

/-! ## `urlsplit` -/

/-- `_WHATWG_C0_CONTROL_OR_SPACE`. -/
def isControlOrSpace (c : CodePoint) : Bool := c.val ≤ 0x20

/-- `_UNSAFE_URL_BYTES_TO_REMOVE`. -/
def isUnsafeByte (c : CodePoint) : Bool := c.val == 0x9 || c.val == 0xd || c.val == 0xa

/-- The URL without control characters before it and without tabs and line ends in it. -/
def cleanUrl (url : Text) : Text :=
  (url.dropWhile isControlOrSpace).filter fun c => !isUnsafeByte c

/-- The scheme and what follows it. -/
def splitScheme (url : Text) : Text × Text :=
  let (scheme, found, rest) := partition (ofChar ':') url
  if found && scheme.head?.any isAsciiAlpha && scheme.all isSchemeChar then
    (scheme.map lowerChar, rest)
  else ([], url)

/-- The characters that end a network location. -/
def isNetlocEnd (c : CodePoint) : Bool := c == ofChar '/' || c == ofChar '?' || c == ofChar '#'

/-- `_splitnetloc`, on a URL that starts with two slashes. -/
def splitNetloc (url : Text) : Text × Text :=
  if (ofString "//").isPrefixOf url then
    ((url.drop 2).takeWhile fun c => !isNetlocEnd c, (url.drop 2).dropWhile fun c => !isNetlocEnd c)
  else ([], url)

/-- The expression `\Av[a-fA-F0-9]+\..+\Z`. -/
def isIpvFuture : Text → Bool
  | [] => false
  | c :: t =>
    let (version, found, address) := partition (ofChar '.') t
    c == ofChar 'v' && !version.isEmpty && version.all isHexDigit && found && !address.isEmpty

/-- `_check_bracketed_host`. -/
def checkBracketedHost (names : Names) (host : Text) : Bool :=
  if host.head? = some (ofChar 'v') then isIpvFuture host else names.isIpv6 host

/-- `_check_bracketed_netloc`. -/
def checkBracketedNetloc (names : Names) (netloc : Text) : Bool :=
  let (_, _, hostinfo) := rpartition (ofChar '@') netloc
  let (before, bracket, bracketed) := partition (ofChar '[') hostinfo
  if bracket then
    let (host, _, port) := partition (ofChar ']') bracketed
    before.isEmpty && (port.isEmpty || port.head? == some (ofChar ':')) &&
      checkBracketedHost names host
  else checkBracketedHost names (partition (ofChar ':') hostinfo).1

/-- The brackets of a network location are closed, and there is an address in them. -/
def checkBrackets (names : Names) (netloc : Text) : Bool :=
  (netloc.contains (ofChar '[') == netloc.contains (ofChar ']')) &&
    (!netloc.contains (ofChar '[') || checkBracketedNetloc names netloc)

/-- `_checknetloc`. -/
def checkNetloc (names : Names) (netloc : Text) : Bool :=
  netloc.all isAscii ||
    (let n := netloc.filter fun c => !(ofString "@:#?").contains c
     names.nfkc n == n || !(ofString "/?#@:").any (names.nfkc n).contains)

structure SplitResult where
  scheme : Text
  netloc : Text
  path : Text
  query : Text
  fragment : Text

/-- `urlsplit`; `none` where it raises a `ValueError`. -/
def urlsplit (names : Names) (url : Text) : Option SplitResult :=
  let (scheme, url) := splitScheme (cleanUrl url)
  let (netloc, url) := splitNetloc url
  let (url, _, fragment) := partition (ofChar '#') url
  let (path, _, query) := partition (ofChar '?') url
  if checkBrackets names netloc && checkNetloc names netloc then
    some { scheme, netloc, path, query, fragment }
  else none

/-! ## The parts of a network location -/

/-- `_userinfo`. -/
def userinfo (netloc : Text) : Option Text × Option Text :=
  let (info, found, _) := rpartition (ofChar '@') netloc
  if found then
    let (username, hasPassword, password) := partition (ofChar ':') info
    (some username, if hasPassword then some password else none)
  else (none, none)

/-- `_hostinfo`. -/
def hostinfo (netloc : Text) : Text × Option Text :=
  let (_, _, info) := rpartition (ofChar '@') netloc
  let (_, bracket, bracketed) := partition (ofChar '[') info
  let (host, port) :=
    if bracket then
      let (host, _, port) := partition (ofChar ']') bracketed
      (host, (partition (ofChar ':') port).2.2)
    else
      let (host, _, port) := partition (ofChar ':') info
      (host, port)
  (host, if port.isEmpty then none else some port)

/-- A host in lower case, but for its zone. -/
def lowerHost (names : Names) (host : Text) : Text :=
  let (host, percent, zone) := partition (ofChar '%') host
  names.lower host ++ if percent then ofChar '%' :: zone else []

/-- The number of a port; `none` where it raises a `ValueError`, which `int` also does for more
digits than it takes. -/
def portNumber (port : Text) : Option Nat :=
  if port.all isDigit && port.length ≤ 4300 then
    if natOf port ≤ 65535 then some (natOf port) else none
  else none

namespace SplitResult

variable (u : SplitResult)

def username : Option Text := (userinfo u.netloc).1

def password : Option Text := (userinfo u.netloc).2

def hostname (names : Names) : Option Text :=
  let (host, _) := hostinfo u.netloc
  if host.isEmpty then none else some (lowerHost names host)

/-- `port`; the outer `none` is its `ValueError`. -/
def port : Option (Option Nat) :=
  match (hostinfo u.netloc).2 with
  | none => some none
  | some port => (portNumber port).map some

end SplitResult

/-! ## A host among given ones -/

/-- The characters of a host that is compared: no capital letter, and not the letter that the sign
for kelvin becomes. -/
def isHostChar (c : CodePoint) : Bool :=
  (0x61 ≤ c.val && c.val ≤ 0x7a && c != ofChar 'k') || isDigit c || c == ofChar '.' || c == ofChar '-'

/-- A host that no address in brackets is taken for. -/
structure PlainHost (host : Text) : Prop where
  ne_nil : host ≠ []
  chars : ∀ c ∈ host, isHostChar c = true
  head : host.head? ≠ some (ofChar 'v')

/-- No port, an empty one or a given one. -/
def PortText (n : Nat) (port : Text) : Prop :=
  port = [] ∨ port = [ofChar ':'] ∨ ∃ digits, port = ofChar ':' :: digits ∧ digits ≠ [] ∧
    portNumber digits = some n

/-- A user without a name and a password. -/
def NoUser (user : Text) : Prop := user = [] ∨ user = ofString "@" ∨ user = ofString ":@"

section
variable {names : Names} {h host netloc : Text} {n : Nat}

theorem isAscii_of_isHostChar {c : CodePoint} (hc : isHostChar c = true) : isAscii c = true := by
  simp only [isHostChar, isDigit, isAscii, Bool.or_eq_true, Bool.and_eq_true, decide_eq_true_eq,
    beq_iff_eq, bne_iff_ne, Fin.ext_iff, ofChar_val] at hc ⊢
  rcases hc with ((hc | hc) | hc) | hc
  · omega
  · omega
  · rw [hc]
    decide
  · rw [hc]
    decide

theorem PlainHost.notMem (hplain : PlainHost h) {c : CodePoint} (hc : isHostChar c = false) :
    c ∉ h := by
  intro hmem
  rw [hplain.chars c hmem] at hc
  cases hc

/-- A host that is a given one in lower case has none of the characters that cut a location. -/
theorem PlainHost.notMem_map (hplain : PlainHost (host.map lowerChar)) {c : CodePoint}
    (hc : isHostChar c = false) (halpha : isAsciiAlpha c = false) : c ∉ host :=
  fun hmem => hplain.notMem hc ((mem_map_lowerChar halpha).2 hmem)

theorem PlainHost.ascii (hplain : PlainHost h) : h.all isAscii = true :=
  List.all_eq_true.2 fun c hc => isAscii_of_isHostChar (hplain.chars c hc)

theorem all_isAscii_map {t : Text} : (t.map lowerChar).all isAscii = t.all isAscii := by
  rw [List.all_map]
  exact congrArg (t.all ·) (funext fun _ => isAscii_lowerChar)

/-- A host is a plain one in lower case exactly if it is so character by character. -/
theorem lowerHost_eq_iff (hplain : PlainHost h) :
    lowerHost names host = h ↔ host.map lowerChar = h := by
  constructor
  · intro heq
    rcases partition_cases (ofChar '%') host with ⟨-, hcut⟩ | ⟨front, zone, -, -, hcut⟩
    · rw [lowerHost, hcut] at heq
      dsimp only at heq
      rw [if_neg Bool.false_ne_true, List.append_nil] at heq
      have hascii : host.all isAscii = true := by
        refine names.ascii_of_lower host ?_ ?_
        · rw [heq]
          exact hplain.ascii
        · rw [heq]
          exact hplain.notMem (by decide)
      rw [← names.lower_ascii host hascii, heq]
    · refine absurd ?_ (hplain.notMem (c := ofChar '%') (by decide))
      rw [← heq, lowerHost, hcut]
      simp
  · rintro rfl
    have hno : ofChar '%' ∉ host := hplain.notMem_map (by decide) (by decide)
    rw [lowerHost, partition_of_notMem hno]
    dsimp only
    rw [if_neg Bool.false_ne_true, List.append_nil]
    exact names.lower_ascii host (all_isAscii_map ▸ hplain.ascii)

/-- An address in brackets is no plain host. -/
theorem not_checkBracketedHost (hplain : PlainHost (host.map lowerChar)) :
    checkBracketedHost names host = false := by
  have hhead : host.head? ≠ some (ofChar 'v') := by
    intro heq
    refine hplain.head ?_
    rw [List.head?_map, heq]
    decide
  rw [checkBracketedHost, if_neg hhead, Bool.eq_false_iff]
  intro hipv6
  exact hplain.notMem_map (by decide) (by decide) (names.colon_of_isIpv6 host hipv6)

/-- The location names no user, and its host and its port are the given ones. -/
structure Hosted (names : Names) (h : Text) (n : Nat) (netloc : Text) : Prop where
  brackets : checkBrackets names netloc = true
  characters : checkNetloc names netloc = true
  username : (userinfo netloc).1.getD [] = []
  password : (userinfo netloc).2.getD [] = []
  host : lowerHost names (hostinfo netloc).1 = h
  port : (hostinfo netloc).2 = none ∨ ∃ digits, (hostinfo netloc).2 = some digits ∧
    portNumber digits = some n

/-- What follows the user is the host and the port. -/
theorem Hosted.info (hplain : PlainHost h) (hhosted : Hosted names h n netloc) {info : Text}
    (hinfo : (rpartition (ofChar '@') netloc).2.2 = info) (hsub : info ⊆ netloc) :
    ∃ host port, info = host ++ port ∧ host.map lowerChar = h ∧ PortText n port := by
  have hhost := hhosted.host
  have hport := hhosted.port
  rcases partition_cases (ofChar '[') info with ⟨-, hcut⟩ | ⟨front, bracketed, -, rfl, hcut⟩
  · rcases partition_cases (ofChar ':') info with ⟨-, hcut'⟩ | ⟨host, port, -, rfl, hcut'⟩
    · simp only [hostinfo, hinfo, hcut, hcut', Bool.false_eq_true, if_false] at hhost
      exact ⟨info, [], by simp, (lowerHost_eq_iff hplain).1 hhost, .inl rfl⟩
    · simp only [hostinfo, hinfo, hcut, hcut', Bool.false_eq_true, if_false] at hhost hport
      refine ⟨host, ofChar ':' :: port, rfl, (lowerHost_eq_iff hplain).1 hhost, ?_⟩
      cases port with
      | nil => exact .inr (.inl rfl)
      | cons c port =>
        obtain ⟨digits, hdigits, hnumber⟩ := hport.resolve_left (by simp)
        obtain rfl : c :: port = digits := by simpa using hdigits
        exact .inr (.inr ⟨_, rfl, by simp, hnumber⟩)
  · simp only [hostinfo, hinfo, hcut, if_true] at hhost
    have hmap := (lowerHost_eq_iff hplain).1 hhost
    have hmem : netloc.contains (ofChar '[') = true := by
      simpa using hsub (List.mem_append_right front List.mem_cons_self)
    have hbrackets := hhosted.brackets
    rw [checkBrackets, hmem, Bool.and_eq_true, Bool.not_true, Bool.false_or] at hbrackets
    have hcheck := hbrackets.2
    simp only [checkBracketedNetloc, hinfo, hcut, if_true, Bool.and_eq_true] at hcheck
    rw [not_checkBracketedHost (hmap ▸ hplain)] at hcheck
    cases hcheck.2

theorem Hosted.written (hplain : PlainHost h) (hhosted : Hosted names h n netloc) :
    ∃ user host port, netloc = user ++ (host ++ port) ∧ NoUser user ∧ host.map lowerChar = h ∧
      PortText n port := by
  rcases rpartition_cases (ofChar '@') netloc with ⟨-, hcut⟩ | ⟨user, info, -, rfl, hcut⟩
  · obtain ⟨host, port, hinfo, hhost, hport⟩ :=
      hhosted.info hplain (congrArg (·.2.2) hcut) (List.Subset.refl _)
    exact ⟨[], host, port, hinfo, .inl rfl, hhost, hport⟩
  · obtain ⟨host, port, rfl, hhost, hport⟩ := hhosted.info hplain (congrArg (·.2.2) hcut)
      (List.Subset.trans (List.subset_cons_self _ _) (List.subset_append_right _ _))
    have husername := hhosted.username
    have hpassword := hhosted.password
    simp only [userinfo, hcut, if_true] at husername hpassword
    rcases partition_cases (ofChar ':') user with ⟨-, hcut'⟩ | ⟨username, password, -, rfl, hcut'⟩
    · simp only [hcut', Option.getD_some] at husername
      exact ⟨ofString "@", host, port, by rw [husername]; rfl, .inr (.inl rfl), hhost, hport⟩
    · simp only [hcut', Option.getD_some, if_true] at husername hpassword
      refine ⟨ofString ":@", host, port, ?_, .inr (.inr rfl), hhost, hport⟩
      rw [husername, hpassword]
      rfl

/-- A port is made of a colon and digits. -/
theorem PortText.notMem {port : Text} (hport : PortText n port) {c : CodePoint}
    (hcolon : c ≠ ofChar ':') (hdigit : isDigit c = false) : c ∉ port := by
  obtain rfl | rfl | ⟨digits, rfl, -, hnumber⟩ := hport
  · exact List.not_mem_nil
  · simpa using hcolon
  · rw [List.mem_cons, not_or]
    refine ⟨hcolon, fun hc => ?_⟩
    rw [portNumber] at hnumber
    obtain ⟨hdigits, -⟩ := Option.ite_none_right_eq_some.1 hnumber
    rw [Bool.and_eq_true, List.all_eq_true] at hdigits
    rw [hdigits.1 c hc] at hdigit
    cases hdigit

theorem PortText.ascii {port : Text} (hport : PortText n port) : port.all isAscii = true := by
  obtain rfl | rfl | ⟨digits, rfl, -, hnumber⟩ := hport
  · rfl
  · decide
  · rw [portNumber] at hnumber
    obtain ⟨hdigits, -⟩ := Option.ite_none_right_eq_some.1 hnumber
    rw [Bool.and_eq_true, List.all_eq_true] at hdigits
    rw [List.all_cons, Bool.and_eq_true, List.all_eq_true]
    refine ⟨by decide, fun c hc => ?_⟩
    have hc := hdigits.1 c hc
    simp only [isDigit, isAscii, Bool.and_eq_true, decide_eq_true_eq] at hc ⊢
    omega

theorem NoUser.notMem {user : Text} (huser : NoUser user) {c : CodePoint}
    (hcolon : c ≠ ofChar ':') (hat : c ≠ ofChar '@') : c ∉ user := by
  obtain rfl | rfl | rfl := huser
  · exact List.not_mem_nil
  · simpa [ofString] using hat
  · simpa [ofString] using ⟨hcolon, hat⟩

/-- A location that is written as a host without a user and with a given port is split so. -/
theorem hosted_of_written {user port : Text} (hplain : PlainHost (host.map lowerChar))
    (huser : NoUser user) (hport : PortText n port) :
    Hosted names (host.map lowerChar) n (user ++ (host ++ port)) := by
  have hcut : ∀ c : CodePoint, isHostChar c = false → isAsciiAlpha c = false → c ≠ ofChar ':' →
      isDigit c = false → c ∉ host ++ port := by
    intro c hc halpha hcolon hdigit
    rw [List.mem_append, not_or]
    exact ⟨hplain.notMem_map hc halpha, hport.notMem hcolon hdigit⟩
  have hat : ofChar '@' ∉ host ++ port := hcut _ (by decide) (by decide) (by decide) (by decide)
  have hopen : ofChar '[' ∉ host ++ port := hcut _ (by decide) (by decide) (by decide) (by decide)
  have hclose : ofChar ']' ∉ host ++ port := hcut _ (by decide) (by decide) (by decide) (by decide)
  have hcolon : ofChar ':' ∉ host := hplain.notMem_map (by decide) (by decide)
  have hinfo : (rpartition (ofChar '@') (user ++ (host ++ port))).2.2 = host ++ port ∧
      (userinfo (user ++ (host ++ port))).1.getD [] = [] ∧
      (userinfo (user ++ (host ++ port))).2.getD [] = [] := by
    obtain rfl | rfl | rfl := huser
    · rw [List.nil_append, userinfo, rpartition_of_notMem hat]
      exact ⟨rfl, rfl, rfl⟩
    · have hr : rpartition (ofChar '@') ([] ++ ofChar '@' :: (host ++ port)) =
          ([], true, host ++ port) := rpartition_append hat
      rw [show ofString "@" ++ (host ++ port) = [] ++ ofChar '@' :: (host ++ port) from rfl, userinfo,
        hr]
      exact ⟨rfl, rfl, rfl⟩
    · have hr : rpartition (ofChar '@') ([ofChar ':'] ++ ofChar '@' :: (host ++ port)) =
          ([ofChar ':'], true, host ++ port) := rpartition_append hat
      rw [show ofString ":@" ++ (host ++ port) = [ofChar ':'] ++ ofChar '@' :: (host ++ port) from rfl,
        userinfo, hr]
      exact ⟨rfl, rfl, rfl⟩
  have hnone : ∀ {c}, c ∉ host ++ port → c ≠ ofChar ':' → c ≠ ofChar '@' →
      (user ++ (host ++ port)).contains c = false := by
    intro c hc hcolon hat
    rw [List.contains_eq_mem, decide_eq_false_iff_not, List.mem_append, not_or]
    exact ⟨huser.notMem hcolon hat, hc⟩
  have hhostinfo : hostinfo (user ++ (host ++ port)) =
      (host, if port.tail.isEmpty then none else some port.tail) := by
    simp only [hostinfo, hinfo.1, partition_of_notMem hopen, Bool.false_eq_true, if_false]
    obtain rfl | rfl | ⟨digits, rfl, -, -⟩ := hport
    · rw [List.append_nil, partition_of_notMem hcolon]
      rfl
    · rw [partition_append hcolon]
      rfl
    · rw [partition_append hcolon]
      rfl
  have huserAscii : user.all isAscii = true := by
    obtain rfl | rfl | rfl := huser <;> decide
  refine { brackets := ?_, characters := ?_, username := hinfo.2.1, password := hinfo.2.2, host := ?_
           port := ?_ }
  · rw [checkBrackets, hnone hopen (by decide) (by decide), hnone hclose (by decide) (by decide)]
    rfl
  · rw [checkNetloc, List.all_append, List.all_append, huserAscii, ← all_isAscii_map (t := host),
      hplain.ascii, hport.ascii]
    rfl
  · rw [hhostinfo]
    exact (lowerHost_eq_iff hplain).2 rfl
  · rw [hhostinfo]
    obtain rfl | rfl | ⟨digits, rfl, hne, hnumber⟩ := hport
    · exact .inl rfl
    · exact .inl rfl
    · exact .inr ⟨digits, by simpa using hne, hnumber⟩

/-- A location without a user, with the host and with the port or none is written as these. -/
theorem hosted_iff (hplain : PlainHost h) : Hosted names h n netloc ↔
    ∃ user host port, netloc = user ++ (host ++ port) ∧ NoUser user ∧ host.map lowerChar = h ∧
      PortText n port := by
  constructor
  · exact fun hhosted => hhosted.written hplain
  · rintro ⟨user, host, port, rfl, huser, rfl, hport⟩
    exact hosted_of_written hplain huser hport

end

/-! ## A URL with such a host -/

/-- The URL has the scheme `https`, a host among the given ones, no user, no port or the given one
and no fragment. -/
structure SplitResult.Trusted (names : Names) (hosts : List Text) (n : Nat) (u : SplitResult) :
    Prop where
  scheme : u.scheme = ofString "https"
  hostname : ∃ h ∈ hosts, u.hostname names = some h
  username : u.username.getD [] = []
  password : u.password.getD [] = []
  fragment : u.fragment = []
  port : u.port = some none ∨ u.port = some (some n)

/-- Control characters apart, the URL is written as the scheme, an empty user or none, the host, an
empty port, the given one or none, and a path and a query after it. -/
structure Located (hosts : List Text) (n : Nat) (url scheme user host port rest : Text) : Prop where
  url : cleanUrl url = scheme ++ ofChar ':' :: (ofString "//" ++ ((user ++ (host ++ port)) ++ rest))
  scheme : scheme.map lowerChar = ofString "https"
  user : NoUser user
  host : host.map lowerChar ∈ hosts
  port : PortText n port
  head : rest.head?.all isNetlocEnd = true
  fragment : ofChar '#' ∉ rest.dropLast

section
variable {names : Names} {hosts : List Text} {n : Nat} {url : Text}

theorem isAsciiAlpha_lowerChar (c : CodePoint) : isAsciiAlpha (lowerChar c) = isAsciiAlpha c := by
  rw [Bool.eq_iff_iff]
  simp only [isAsciiAlpha, Bool.or_eq_true, Bool.and_eq_true, decide_eq_true_eq]
  rcases lowerChar_val c with ⟨h, h'⟩ | ⟨h, h'⟩ <;> omega

theorem splitScheme_some {url : Text} (h : (splitScheme url).1 ≠ []) :
    ∃ scheme rest, url = scheme ++ ofChar ':' :: rest ∧
      splitScheme url = (scheme.map lowerChar, rest) := by
  rcases partition_cases (ofChar ':') url with ⟨-, hcut⟩ | ⟨scheme, rest, -, rfl, hcut⟩
  · simp [splitScheme, hcut] at h
  · refine ⟨scheme, rest, rfl, ?_⟩
    simp only [splitScheme, hcut, Bool.true_and] at h ⊢
    split at h
    case isTrue hchecks => rw [if_pos hchecks]
    case isFalse => exact absurd rfl h

theorem splitScheme_https {scheme rest : Text} (h : scheme.map lowerChar = ofString "https") :
    splitScheme (scheme ++ ofChar ':' :: rest) = (ofString "https", rest) := by
  have halpha : ∀ c ∈ scheme, isAsciiAlpha c = true := by
    have key : ∀ d ∈ ofString "https", isAsciiAlpha d = true := by simp [ofString, isAsciiAlpha]
    intro c hc
    rw [← isAsciiAlpha_lowerChar]
    exact key _ (h ▸ List.mem_map_of_mem hc)
  have hcolon : ofChar ':' ∉ scheme := by
    intro hc
    exact absurd (halpha _ hc) (by decide)
  have hhead : scheme.head?.any isAsciiAlpha = true := by
    cases scheme with
    | nil => cases h
    | cons c scheme => exact halpha c List.mem_cons_self
  have hchars : scheme.all isSchemeChar = true := by
    rw [List.all_eq_true]
    intro c hc
    rw [isSchemeChar, halpha c hc]
    rfl
  simp only [splitScheme, partition_append hcolon, hhead, hchars, Bool.and_self, if_true, h]

theorem splitNetloc_some {url : Text} (h : (splitNetloc url).1 ≠ []) :
    ∃ rest, url = ofString "//" ++ ((splitNetloc url).1 ++ rest) ∧ (splitNetloc url).2 = rest ∧
      rest.head?.all isNetlocEnd = true := by
  unfold splitNetloc at h ⊢
  split at h
  case isTrue hslashes =>
    rw [if_pos hslashes]
    refine ⟨(url.drop 2).dropWhile fun c => !isNetlocEnd c, ?_, rfl, ?_⟩
    · obtain ⟨rest, rfl⟩ := List.isPrefixOf_iff_prefix.1 hslashes
      rw [List.takeWhile_append_dropWhile]
      rfl
    · have hhead := List.head?_dropWhile_not (fun c => !isNetlocEnd c) (url.drop 2)
      cases hrest : ((url.drop 2).dropWhile fun c => !isNetlocEnd c).head? with
      | none => rfl
      | some c =>
        rw [hrest] at hhead
        simpa using hhead
  case isFalse => exact absurd rfl h

theorem splitNetloc_append {netloc rest : Text} (hnetloc : ∀ c ∈ netloc, isNetlocEnd c = false)
    (hrest : rest.head?.all isNetlocEnd = true) :
    splitNetloc (ofString "//" ++ (netloc ++ rest)) = (netloc, rest) := by
  have hpos : ∀ c ∈ netloc, (!isNetlocEnd c) = true := fun c hc => by rw [hnetloc c hc]; rfl
  rw [splitNetloc, if_pos (List.isPrefixOf_iff_prefix.2 (List.prefix_append _ _)),
    show (ofString "//" ++ (netloc ++ rest)).drop 2 = netloc ++ rest from rfl,
    List.takeWhile_append_of_pos hpos, List.dropWhile_append_of_pos hpos]
  cases rest with
  | nil => simp
  | cons c rest =>
    have hc : isNetlocEnd c = true := by simpa using hrest
    simp [hc]

theorem fragment_eq_nil_iff (t : Text) :
    (partition (ofChar '#') t).2.2 = [] ↔ ofChar '#' ∉ t.dropLast := by
  rcases partition_cases (ofChar '#') t with ⟨hno, hcut⟩ | ⟨front, rest, hfront, rfl, hcut⟩
  · rw [hcut]
    exact ⟨fun _ h => hno (List.dropLast_subset _ h), fun _ => rfl⟩
  · rw [hcut]
    cases rest with
    | nil => simpa using hfront
    | cons c rest => simp

theorem urlsplit_some {u : SplitResult} (h : urlsplit names url = some u) :
    checkBrackets names u.netloc = true ∧ checkNetloc names u.netloc = true ∧
      u.scheme = (splitScheme (cleanUrl url)).1 ∧
      u.netloc = (splitNetloc (splitScheme (cleanUrl url)).2).1 ∧
      u.fragment =
        (partition (ofChar '#') (splitNetloc (splitScheme (cleanUrl url)).2).2).2.2 ∧
      u.query = (partition (ofChar '?')
        (partition (ofChar '#') (splitNetloc (splitScheme (cleanUrl url)).2).2).1).2.2 := by
  rw [urlsplit] at h
  obtain ⟨hchecks, hsplit⟩ := Option.ite_none_right_eq_some.1 h
  rw [Bool.and_eq_true] at hchecks
  obtain rfl := Option.some.inj hsplit
  exact ⟨hchecks.1, hchecks.2, rfl, rfl, rfl, rfl⟩

/-- The location of a URL that is trusted has one of the hosts. -/
theorem SplitResult.Trusted.hosted {u : SplitResult} (h : u.Trusted names hosts n)
    (hbrackets : checkBrackets names u.netloc = true)
    (hchars : checkNetloc names u.netloc = true) : ∃ h ∈ hosts, Hosted names h n u.netloc := by
  obtain ⟨host, hmem, hhost⟩ := h.hostname
  refine ⟨host, hmem, hbrackets, hchars, h.username, h.password, ?_, ?_⟩
  · rw [SplitResult.hostname] at hhost
    exact Option.some.inj (Option.ite_none_left_eq_some.1 hhost).2
  · have hport := h.port
    rw [SplitResult.port] at hport
    cases hinfo : (hostinfo u.netloc).2 with
    | none => exact .inl rfl
    | some digits =>
      rw [hinfo] at hport
      simpa [Option.map_eq_some_iff] using hport

theorem Hosted.trusted {u : SplitResult} {h : Text} (hplain : PlainHost h) (hmem : h ∈ hosts)
    (hhosted : Hosted names h n u.netloc) (hscheme : u.scheme = ofString "https")
    (hfragment : u.fragment = []) : u.Trusted names hosts n where
  scheme := hscheme
  hostname := by
    refine ⟨h, hmem, ?_⟩
    rw [SplitResult.hostname]
    dsimp only
    rw [if_neg, hhosted.host]
    intro hempty
    have hhost := (lowerHost_eq_iff hplain).1 hhosted.host
    rw [List.isEmpty_iff.1 hempty] at hhost
    exact hplain.ne_nil hhost.symm
  username := hhosted.username
  password := hhosted.password
  fragment := hfragment
  port := by
    rw [SplitResult.port]
    rcases hhosted.port with hnone | ⟨digits, hdigits, hnumber⟩
    · rw [hnone]
      exact .inl rfl
    · rw [hdigits]
      exact .inr (by simp [hnumber])

/-- Where such a URL is cut. -/
theorem Located.split {scheme user host port rest : Text} (hplain : ∀ h ∈ hosts, PlainHost h)
    (h : Located hosts n url scheme user host port rest) :
    splitScheme (cleanUrl url) =
        (ofString "https", ofString "//" ++ ((user ++ (host ++ port)) ++ rest)) ∧
      splitNetloc (ofString "//" ++ ((user ++ (host ++ port)) ++ rest)) =
        (user ++ (host ++ port), rest) := by
  refine ⟨by rw [h.url, splitScheme_https h.scheme], splitNetloc_append ?_ h.head⟩
  intro c hc
  by_contra hend
  rw [Bool.not_eq_false, isNetlocEnd, Bool.or_eq_true, Bool.or_eq_true, beq_iff_eq, beq_iff_eq,
    beq_iff_eq] at hend
  rw [List.mem_append, List.mem_append] at hc
  have hno : ∀ d : CodePoint, d ≠ ofChar ':' → d ≠ ofChar '@' → isDigit d = false →
      isHostChar d = false → isAsciiAlpha d = false → c ≠ d := by
    rintro d hcolon hat hdigit hchar halpha rfl
    rcases hc with hc | hc | hc
    · exact h.user.notMem hcolon hat hc
    · exact (hplain _ h.host).notMem_map hchar halpha hc
    · exact h.port.notMem hcolon hdigit hc
  rcases hend with (hc | hc) | hc <;>
    exact absurd hc (hno _ (by decide) (by decide) (by decide) (by decide) (by decide))

/-- **What `urlsplit` finds is what is written.** -/
theorem trusted_iff (hplain : ∀ h ∈ hosts, PlainHost h) :
    (∃ u, urlsplit names url = some u ∧ u.Trusted names hosts n) ↔
      ∃ scheme user host port rest, Located hosts n url scheme user host port rest := by
  constructor
  · rintro ⟨u, hu, htrusted⟩
    obtain ⟨hbrackets, hchars, hsplit, hsplit', hfragment, -⟩ := urlsplit_some hu
    have hhttps : (splitScheme (cleanUrl url)).1 = ofString "https" := hsplit ▸ htrusted.scheme
    have hne : (splitScheme (cleanUrl url)).1 ≠ [] := by
      rw [hhttps]
      exact List.cons_ne_nil _ _
    obtain ⟨scheme, rest, hclean, hscheme⟩ := splitScheme_some hne
    obtain ⟨h, hmem, hhosted⟩ := htrusted.hosted hbrackets hchars
    obtain ⟨user, host, port, hnetloc, huser, rfl, hport⟩ := hhosted.written (hplain h hmem)
    have hne : (splitNetloc (splitScheme (cleanUrl url)).2).1 ≠ [] := by
      rw [← hsplit', hnetloc]
      intro hnil
      obtain ⟨-, hnil⟩ := List.append_eq_nil_iff.1 hnil
      have hhost := (List.append_eq_nil_iff.1 hnil).1
      exact (hplain _ hmem).ne_nil (by rw [hhost]; rfl)
    obtain ⟨rest', hrest, hpath, hhead⟩ := splitNetloc_some hne
    refine ⟨scheme, user, host, port, rest', ?_, ?_, huser, hmem, hport, hhead, ?_⟩
    · rw [← hsplit', hnetloc, hscheme] at hrest
      rw [hclean, ← hrest]
    · rw [← hhttps, hscheme]
    · rw [← fragment_eq_nil_iff, ← hpath, ← hfragment]
      exact htrusted.fragment
  · rintro ⟨scheme, user, host, port, rest, h⟩
    have hhosted : Hosted names (host.map lowerChar) n (user ++ (host ++ port)) :=
      hosted_of_written (hplain _ h.host) h.user h.port
    refine ⟨_, ?_, Hosted.trusted (u := ⟨ofString "https", user ++ (host ++ port),
      (partition (ofChar '?') (partition (ofChar '#') rest).1).1,
      (partition (ofChar '?') (partition (ofChar '#') rest).1).2.2,
      (partition (ofChar '#') rest).2.2⟩) (hplain _ h.host) h.host hhosted rfl
      ((fragment_eq_nil_iff rest).2 h.fragment)⟩
    obtain ⟨hscheme, hnetloc⟩ := h.split hplain
    rw [urlsplit, hscheme]
    dsimp only
    rw [hnetloc]
    dsimp only
    rw [hhosted.brackets, hhosted.characters]
    rfl

theorem mem_of_mem_cleanUrl {c : CodePoint} (h : c ∈ cleanUrl url) : c ∈ url :=
  (List.dropWhile_suffix _).subset (List.mem_of_mem_filter h)

theorem cleanUrl_append {more : Text} (h : cleanUrl url ≠ [])
    (hmore : ∀ c ∈ more, 0x20 < c.val) : cleanUrl (url ++ more) = cleanUrl url ++ more := by
  have hdrop : url.dropWhile isControlOrSpace ≠ [] := by
    intro hnil
    rw [cleanUrl, hnil] at h
    exact h rfl
  have hsafe : more.filter (fun c => !isUnsafeByte c) = more := by
    rw [List.filter_eq_self]
    intro c hc
    have hval := hmore c hc
    simp only [isUnsafeByte, Bool.not_eq_true', Bool.or_eq_false_iff, beq_eq_false_iff_ne]
    omega
  rw [cleanUrl, List.dropWhile_append, if_neg (by simpa using hdrop), List.filter_append, hsafe]
  rfl

/-- A query that is put behind a URL without one is its query. -/
theorem Located.append_query {scheme user host port rest query : Text}
    (hplain : ∀ h ∈ hosts, PlainHost h) (h : Located hosts n url scheme user host port rest)
    (hmark : ofChar '?' ∉ url) (hhash : ofChar '#' ∉ url)
    (hquery : ∀ c ∈ query, 0x20 < c.val ∧ c ≠ ofChar '#') :
    ∃ u, urlsplit names (url ++ ofChar '?' :: query) = some u ∧ u.Trusted names hosts n ∧
      u.query = query := by
  have hrest : rest ⊆ url := by
    intro c hc
    refine mem_of_mem_cleanUrl ?_
    rw [h.url]
    simp [hc]
  have hclean : cleanUrl (url ++ ofChar '?' :: query) = cleanUrl url ++ ofChar '?' :: query := by
    refine cleanUrl_append ?_ (List.forall_mem_cons.2 ⟨by decide, fun c hc => (hquery c hc).1⟩)
    rw [h.url]
    simp
  have hnone : ofChar '#' ∉ rest ++ ofChar '?' :: query := by
    rw [List.mem_append, List.mem_cons, not_or, not_or]
    exact ⟨fun hc => hhash (hrest hc), by decide, fun hc => (hquery _ hc).2 rfl⟩
  have hlocated : Located hosts n (url ++ ofChar '?' :: query) scheme user host port
      (rest ++ ofChar '?' :: query) :=
    { url := by rw [hclean, h.url]; simp
      scheme := h.scheme
      user := h.user
      host := h.host
      port := h.port
      head := by
        cases rest with
        | nil => rfl
        | cons c rest => exact h.head
      fragment := fun hc => hnone (List.dropLast_subset _ hc) }
  obtain ⟨u, hu, htrusted⟩ := (trusted_iff hplain).2 ⟨_, _, _, _, _, hlocated⟩
  refine ⟨u, hu, htrusted, ?_⟩
  obtain ⟨-, -, -, -, -, hq⟩ := urlsplit_some hu
  obtain ⟨hscheme, hnetloc⟩ := hlocated.split hplain
  rw [hq, hscheme, hnetloc]
  dsimp only
  rw [partition_of_notMem hnone, partition_append fun hc => hmark (hrest hc)]

end

end Python
