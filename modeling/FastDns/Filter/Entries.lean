/-
What the lines of a list hand to `normalise_domain` (`parse_and_insert` and the two
line parsers in `src/blocklist.rs`).

A line gives at most one name, and that name is the normal form of a part of the
line: the token behind an address, or the line without the marks of an ad-block
rule (`parseLine_eq`). What a list adds to the blocked names are the normal forms of
its entries (`mem_domains_iff`).
-/

import FastDns.Filter.Blocklist

namespace FastDns.Filter

/-- What `parse_hosts_line` normalises: the token behind an address. -/
def hostsEntry (line : Text) : Option Text :=
  match splitWhitespace (trim line) with
  | ip :: domain :: _ => if looksLikeIp ip || ip = ['0'] then some domain else none
  | _ => none

/-- What `parse_domain_line` normalises: a line that is no address and not
`localhost`, without the marks of an ad-block rule. -/
def domainEntry (line : Text) : Option Text :=
  let line := trim line
  if line = [] || looksLikeIp line || line = ['0'] || line = "localhost".toList then none
  else
    match stripPrefix line ['|', '|'] with
    | some rest => some ((stripSuffix rest '^').getD rest)
    | none => some line

section Entries

variable (lower : Text → Text)

/-- The entry of a line, if a parser takes it: for the name of a hosts line it is
enough not to be empty, the name of another line has no slash and no space. -/
def entryOf (line : Text) : Option Text :=
  let line := trim line
  if line = [] || startsWith line ['#'] then none
  else
    let line := stripInlineComment line
    match (hostsEntry line).filter fun e => normaliseDomain lower e ≠ [] with
    | some e => some e
    | none =>
        (domainEntry line).filter fun e =>
          !(normaliseDomain lower e = [] || (normaliseDomain lower e).contains '/' ||
            (normaliseDomain lower e).contains ' ')

/-- The entries of a text. -/
def entries (data : Text) : List Text := (lines data).filterMap (entryOf lower)

variable {lower} {line data domain : Text}

private theorem filter_map_some (f : Text → Text) (refused : Text → Bool) (e : Text) :
    (if refused (f e) then none else some (f e)) =
      ((some e).filter fun e => !refused (f e)).map f := by
  cases hrefused : refused (f e) with
  | false => simp [hrefused]
  | true => simp [hrefused]

theorem parseHostsLine_eq (line : Text) :
    parseHostsLine lower line =
      ((hostsEntry line).filter fun e => normaliseDomain lower e ≠ []).map
        (normaliseDomain lower) := by
  unfold parseHostsLine hostsEntry
  cases splitWhitespace (trim line) with
  | nil => rfl
  | cons ip tokens =>
      cases tokens with
      | nil => rfl
      | cons token tokens =>
          dsimp only
          split
          · cases hname : normaliseDomain lower token with
            | nil => simp [hname]
            | cons c name => simp [hname]
          · rfl

theorem parseDomainLine_eq (line : Text) :
    parseDomainLine lower line =
      ((domainEntry line).filter fun e =>
        !(normaliseDomain lower e = [] || (normaliseDomain lower e).contains '/' ||
          (normaliseDomain lower e).contains ' ')).map (normaliseDomain lower) := by
  unfold parseDomainLine domainEntry
  dsimp only
  split
  · rfl
  · cases stripPrefix (trim line) ['|', '|'] with
    | none =>
        exact filter_map_some (normaliseDomain lower)
          (fun domain => domain = [] || domain.contains '/' || domain.contains ' ') (trim line)
    | some rest =>
        exact filter_map_some (normaliseDomain lower)
          (fun domain => domain = [] || domain.contains '/' || domain.contains ' ')
          ((stripSuffix rest '^').getD rest)

/-- A line gives the normal form of its entry. -/
theorem parseLine_eq (line : Text) :
    parseLine lower line = (entryOf lower line).map (normaliseDomain lower) := by
  unfold parseLine entryOf
  dsimp only
  split
  · rfl
  rw [parseHostsLine_eq, parseDomainLine_eq]
  cases hhosts : (hostsEntry (stripInlineComment (trim line))).filter
      fun e => normaliseDomain lower e ≠ [] with
  | some e =>
      have hname : normaliseDomain lower e ≠ [] := by
        simpa using (Option.filter_eq_some_iff.mp hhosts).2
      simp [hname]
  | none =>
      cases hdomain : (domainEntry (stripInlineComment (trim line))).filter fun e =>
          !(normaliseDomain lower e = [] || (normaliseDomain lower e).contains '/' ||
            (normaliseDomain lower e).contains ' ') with
      | none => rfl
      | some e =>
          have hname : normaliseDomain lower e ≠ [] := by
            have hkept := (Option.filter_eq_some_iff.mp hdomain).2
            simp only [Bool.not_eq_true', Bool.or_eq_false_iff, decide_eq_false_iff_not] at hkept
            exact hkept.1.1
          simp [hname]

theorem mem_domains_iff :
    domain ∈ domains lower data ↔ ∃ e ∈ entries lower data, normaliseDomain lower e = domain := by
  simp only [domains, entries, List.mem_toFinset, List.mem_filterMap, parseLine_eq,
    Option.map_eq_some_iff]
  constructor
  · rintro ⟨line, hline, e, he, rfl⟩
    exact ⟨e, ⟨line, hline, he⟩, rfl⟩
  · rintro ⟨e, ⟨line, hline, he⟩, rfl⟩
    exact ⟨line, hline, e, he, rfl⟩

end Entries

end FastDns.Filter
