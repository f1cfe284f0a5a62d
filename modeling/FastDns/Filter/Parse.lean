/-
The text of block lists (`src/blocklist.rs`): lines, names and custom records.

A string is the list of its characters. `str::to_lowercase` is a parameter
(`lower`): the Unicode tables behind it are not part of the program. Slices at
byte positions are modelled where a position need not be the start of a
character (`parse_custom_dns_entry`); everywhere else the source cuts at ASCII
characters.
-/

import FastDns.Lib.Outcome
import Mathlib.Data.List.DropRight
import Mathlib.Data.List.SplitOn

namespace FastDns.Filter

open FastDns.Lib

abbrev Text := List Char

/-! ### Strings -/

/-- `char::is_whitespace` -/
def isWhitespace (c : Char) : Bool :=
  (0x9 ≤ c.val && c.val ≤ 0xd) || c.val = 0x20 || c.val = 0x85 || c.val = 0xa0 || c.val = 0x1680 ||
    (0x2000 ≤ c.val && c.val ≤ 0x200a) || c.val = 0x2028 || c.val = 0x2029 || c.val = 0x202f ||
    c.val = 0x205f || c.val = 0x3000

/-- `str::trim` -/
def trim (s : Text) : Text := (s.dropWhile isWhitespace).rdropWhile isWhitespace

/-- `str::split_whitespace` -/
def splitWhitespace (s : Text) : List Text := (s.splitOnP isWhitespace).filter fun t => t ≠ []

/-- `str::strip_prefix` -/
def stripPrefix (s start : Text) : Option Text :=
  if start.isPrefixOf s then some (s.drop start.length) else none

/-- `str::strip_suffix` for one character -/
def stripSuffix (s : Text) (c : Char) : Option Text :=
  if s.getLast? = some c then some s.dropLast else none

/-- `str::lines`: a line ends with a line feed, and a carriage return before it
belongs to the end. -/
def lines (s : Text) : List Text :=
  let parts := s.splitOn '\n'
  let ended := parts.dropLast.map fun line => (stripSuffix line '\r').getD line
  ended ++ parts.getLast?.toList.filter fun line => line ≠ []

/-- `str::starts_with` -/
def startsWith (s start : Text) : Bool := start.isPrefixOf s

/-- `char::is_ascii_digit` -/
def isAsciiDigit (c : Char) : Bool := '0' ≤ c && c ≤ '9'

/-- `char::is_ascii_hexdigit` -/
def isAsciiHexdigit (c : Char) : Bool :=
  isAsciiDigit c || ('a' ≤ c && c ≤ 'f') || ('A' ≤ c && c ≤ 'F')

/-! ### Names -/

section Parsing

variable (lower : Text → Text)

/-- `normalise_domain` -/
def normaliseDomain (domain : Text) : Text :=
  let d := (lower (trim domain)).rdropWhile fun c => c = '.'
  match stripPrefix d ['*', '.'] with
  | some rest => rest
  | none => if d = ['*'] then [] else d

/-- `domain_parents`: what follows each dot, the closest parent first. -/
def domainParents : Text → List Text
  | [] => []
  | c :: rest => if c = '.' then rest :: domainParents rest else domainParents rest

/-- `looks_like_ip` -/
def looksLikeIp (s : Text) : Bool :=
  (s.contains '.' && s.all fun c => isAsciiDigit c || c = '.') ||
    (s.contains ':' && s.all fun c => isAsciiHexdigit c || c = ':' || c = '.')

/-! ### Lines -/

/-- `strip_inline_comment` -/
def stripInlineComment (line : Text) : Text :=
  if line.contains '#' then trim (line.takeWhile fun c => c ≠ '#') else line

/-- `parse_hosts_line` -/
def parseHostsLine (line : Text) : Option Text :=
  match splitWhitespace (trim line) with
  | ip :: domain :: _ =>
      if looksLikeIp ip || ip = ['0'] then
        match normaliseDomain lower domain with
        | [] => none
        | domain => some domain
      else none
  | _ => none

/-- `parse_domain_line` -/
def parseDomainLine (line : Text) : Option Text :=
  let line := trim line
  if line = [] || looksLikeIp line || line = ['0'] || line = "localhost".toList then none
  else
    let cleaned :=
      match stripPrefix line ['|', '|'] with
      | some rest => (stripSuffix rest '^').getD rest
      | none => line
    let domain := normaliseDomain lower cleaned
    if domain = [] || domain.contains '/' || domain.contains ' ' then none else some domain

/-- The domain that `parse_and_insert` takes from a line. -/
def parseLine (line : Text) : Option Text :=
  let line := trim line
  if line = [] || startsWith line ['#'] then none
  else
    let line := stripInlineComment line
    match parseHostsLine lower line with
    | some domain => if domain = [] then none else some domain
    | none =>
        match parseDomainLine lower line with
        | some domain => if domain = [] then none else some domain
        | none => none

end Parsing

/-! ### Custom records -/

/-- The text before and after the first character that satisfies `p`, cut one
byte behind its start: inside a character of several bytes the slice panics. -/
def splitAtFirst (p : Char → Bool) (entry : Text) : Outcome Empty (Option (Text × Text)) :=
  match entry.dropWhile fun c => !p c with
  | [] => .ok none
  | c :: value =>
      if c.utf8Size = 1 then .ok (some (trim (entry.takeWhile fun c => !p c), trim value))
      else .panic

/-- `parse_custom_dns_entry` -/
def parseCustomDnsEntry (entry : Text) : Outcome Empty (Text × Text) := do
  let entry := trim entry
  match ← splitAtFirst (fun c => c = '=') entry with
  | some parts => pure parts
  | none =>
      match ← splitAtFirst (fun c => c = ':') entry with
      | some parts => pure parts
      | none =>
          match ← splitAtFirst isWhitespace entry with
          | some parts => pure parts
          | none => pure (entry, [])

end FastDns.Filter
