import HtmlMinify.Pass.Links
import HtmlMinify.Proofs.Scan
import HtmlMinify.Url.Parse

/-!
# Addresses of a site

What the rules on addresses make of one address, whatever reads it. `Context.Owns` says which hosts
belong to a site. `Links.LosesScheme` and `Links.LosesHost` say which addresses get shorter, and
what is left of them.

An address without its host is resolved by the page that holds it, and stays on the host of that
page unless it begins with two slashes. Pages take a backslash for a slash and skip tabs and line
breaks. The rule looks for two plain slashes only, so that an address on the site can turn into one
that leads away from it.

## Main statements

* `Context.isLocalHost_iff`: the hosts that count as the site's own.
* `Links.withoutScheme?_eq_some_iff`, `Links.relative?_eq_some_iff`: what is left of an address.
* `Links.staysOnHost_of_relative?_iff`: when what is left stays on the host of the page.
-/

namespace HtmlMinify

open Text

namespace Text

/-- Letter case aside, a word is there exactly if the text begins with it. -/
theorem isSome_afterIgnoringCase? (word text : List Char) :
    (afterIgnoringCase? word text).isSome =
      (word.map Char.toLower).isPrefixOf (text.map Char.toLower) := by
  induction word generalizing text with
  | nil => rfl
  | cons w word ih =>
    cases text with
    | nil => rfl
    | cons c text =>
      rw [afterIgnoringCase?, List.map_cons, List.map_cons, List.isPrefixOf_cons_cons]
      cases hc : w.toLower == c.toLower with
      | true => rw [if_pos rfl, ih, Bool.true_and]
      | false => rfl

/-- Strings are the same in lower case if their characters are. -/
theorem lower_eq_lower_iff {s t : String} :
    lower s = lower t ↔ s.toList.map Char.toLower = t.toList.map Char.toLower := by
  rw [lower, lower, String.ofList_inj]

/-- A word is found where it was put, in whatever letter case. -/
theorem afterIgnoringCase?_eq_some_iff {word text : String} {rest : List Char} :
    afterIgnoringCase? word.toList text.toList = some rest ↔
      ∃ found, lower found = lower word ∧ text = found ++ String.ofList rest := by
  constructor
  · intro h
    obtain ⟨found, htext, hfound⟩ := eq_append_of_afterIgnoringCase? h
    refine ⟨String.ofList found, lower_eq_lower_iff.mpr ?_, ?_⟩
    · rw [String.toList_ofList, hfound]
    · rw [← String.toList_inj, htext, String.toList_append, String.toList_ofList,
        String.toList_ofList]
  · rintro ⟨found, hfound, rfl⟩
    rw [lower_eq_lower_iff] at hfound
    rw [String.toList_append, String.toList_ofList]
    have hsome := isSome_afterIgnoringCase? word.toList (found.toList ++ rest)
    rw [List.map_append, hfound, List.isPrefixOf_iff_prefix.mpr (List.prefix_append _ _)] at hsome
    obtain ⟨after, hafter⟩ := Option.isSome_iff_exists.mp hsome
    obtain ⟨found', hsplit, hfound'⟩ := eq_append_of_afterIgnoringCase? hafter
    have hlength := congrArg List.length (hfound.trans hfound'.symm)
    rw [List.length_map, List.length_map] at hlength
    rw [hafter, (List.append_inj hsplit hlength).2]

end Text

/-! ## Hosts of a site -/

namespace Context

/-- A domain of a site covers a host: it is the host, up to a `www.` in front of one of them, or it
is `*.` and the host or what the host ends in after a dot. -/
inductive Covers : List Char → List Char → Prop where
  | same (host : List Char) : Covers host host
  | bare (domain : List Char) : Covers domain ("www.".toList ++ domain)
  | www {host : List Char} : ¬ "www.".toList <+: host → Covers ("www.".toList ++ host) host
  | top (host : List Char) : Covers ("*.".toList ++ host) host
  | below (top front : List Char) : Covers ("*.".toList ++ top) (front ++ '.' :: top)

/-- The host belongs to the site: a domain of the site covers it, once it is in lower case and has
no dots at its end. -/
def Owns (ctx : Context) (host : String) : Prop :=
  ∃ plain dots, (lower host).toList = plain ++ dots ∧ (∀ c ∈ dots, c = '.') ∧
    plain.getLast? ≠ some '.' ∧ ∃ domain ∈ ctx.localDomains, Covers domain.toList plain

/-- **The plain host** is the host in lower case, without the dots at its end. -/
theorem plainHost_eq_iff {host : String} {plain : List Char} :
    plainHost host = plain ↔ ∃ dots, (lower host).toList = plain ++ dots ∧ (∀ c ∈ dots, c = '.') ∧
      plain.getLast? ≠ some '.' := by
  constructor
  · rintro rfl
    refine ⟨((lower host).toList.reverse.takeWhile (· == '.')).reverse, ?_, fun c hc => ?_, ?_⟩
    · rw [plainHost, ← List.reverse_append, List.takeWhile_append_dropWhile, List.reverse_reverse]
    · simpa using List.mem_takeWhile_imp (List.mem_reverse.mp hc)
    · rw [plainHost, List.getLast?_reverse]
      intro hdot
      cases head?_dropWhile_eq_false hdot
  · rintro ⟨dots, hlower, hdots, hlast⟩
    rw [plainHost, hlower, List.reverse_append, dropWhile_append_stop, List.reverse_reverse]
    · simpa using hdots
    · intro c hc
      rw [List.head?_reverse] at hc
      rw [beq_eq_false_iff_ne]
      rintro rfl
      exact hlast hc

theorem contains_iff {domains : List String} {host : List Char} :
    domains.contains (String.ofList host) = true ↔ ∃ domain ∈ domains, domain.toList = host := by
  rw [List.contains_iff_mem]
  constructor
  · exact fun h => ⟨_, h, String.toList_ofList⟩
  · rintro ⟨domain, hmem, rfl⟩
    rwa [String.ofList_toList]

/-- One of two spellings of a host is the other one with `www.` in front. -/
theorem otherSpelling_eq_iff {host other : List Char} :
    otherSpelling host = other ↔ host = "www.".toList ++ other ∨
      (other = "www.".toList ++ host ∧ ¬ "www.".toList <+: host) := by
  rw [otherSpelling]
  cases hbare : "www.".toList.isPrefixOf? host with
  | some bare =>
    have hhost := eq_append_of_isPrefixOf? hbare
    rw [hhost, List.append_right_inj]
    simp
  | none =>
    have hnot := not_prefix_of_isPrefixOf?_none hbare
    refine ⟨fun heq => .inr ⟨heq.symm, hnot⟩, ?_⟩
    rintro (rfl | ⟨rfl, -⟩)
    · exact absurd (List.prefix_append _ _) hnot
    · rfl

/-- A pattern covers the domain behind its star, and all that is below. -/
theorem coversBelow_iff {domain : String} {host : List Char} :
    coversBelow domain host = true ↔ ∃ top, domain.toList = "*.".toList ++ top ∧
      (host = top ∨ ∃ front, host = front ++ '.' :: top) := by
  rw [coversBelow]
  cases hstar : "*.".toList.isPrefixOf? domain.toList with
  | some top =>
    have hdomain := eq_append_of_isPrefixOf? hstar
    rw [Bool.or_eq_true, beq_iff_eq, List.isSuffixOf_iff_suffix]
    constructor
    · rintro (heq | ⟨front, hfront⟩)
      · exact ⟨top, hdomain, .inl heq⟩
      · exact ⟨top, hdomain, .inr ⟨front, hfront.symm⟩⟩
    · rintro ⟨top', hdomain', hhost⟩
      obtain rfl := List.append_cancel_left (hdomain.symm.trans hdomain')
      exact hhost.imp id fun ⟨front, hfront⟩ => ⟨front, hfront.symm⟩
  | none =>
    refine ⟨(nomatch ·), ?_⟩
    rintro ⟨top, hdomain, -⟩
    exact absurd ⟨top, hdomain.symm⟩ (not_prefix_of_isPrefixOf?_none hstar)

/-- **A host is covered** if it is listed, listed in its other spelling, or below a pattern. -/
theorem covers_iff {domain : String} {host : List Char} :
    Covers domain.toList host ↔ domain.toList = host ∨ domain.toList = otherSpelling host ∨
      coversBelow domain host = true := by
  rw [coversBelow_iff, eq_comm (b := otherSpelling host), otherSpelling_eq_iff]
  constructor
  · generalize domain.toList = chars
    rintro (_ | _ | hnot | _ | ⟨top, front⟩)
    · exact .inl rfl
    · exact .inr (.inl (.inl rfl))
    · exact .inr (.inl (.inr ⟨rfl, hnot⟩))
    · exact .inr (.inr ⟨_, rfl, .inl rfl⟩)
    · exact .inr (.inr ⟨top, rfl, .inr ⟨front, rfl⟩⟩)
  · rintro (h | (h | ⟨h, hnot⟩) | ⟨top, h, rfl | ⟨front, rfl⟩⟩)
    · rw [h]
      exact .same host
    · rw [h]
      exact .bare _
    · rw [h]
      exact .www hnot
    · rw [h]
      exact .top host
    · rw [h]
      exact .below top front

/-- **The site's own hosts are those that its domains cover.** -/
theorem isLocalHost_iff {ctx : Context} {host : String} :
    ctx.isLocalHost host = true ↔ ctx.Owns host := by
  have hcovers : ctx.isLocalHost host = true ↔
      ∃ domain ∈ ctx.localDomains, Covers domain.toList (plainHost host) := by
    rw [isLocalHost, Bool.or_eq_true, Bool.or_eq_true, contains_iff, contains_iff, List.any_eq_true]
    simp only [covers_iff, and_or_left, exists_or, or_assoc]
  rw [hcovers]
  constructor
  · intro h
    obtain ⟨dots, hlower, hdots, hlast⟩ := plainHost_eq_iff.mp rfl
    exact ⟨_, dots, hlower, hdots, hlast, h⟩
  · rintro ⟨plain, dots, hlower, hdots, hlast, h⟩
    rwa [plainHost_eq_iff.mpr ⟨dots, hlower, hdots, hlast⟩]

end Context

/-! ## What is left of an address -/

namespace Links

variable {read? : String → Option Url} {ctx : Context} {address scheme path : String}

/-- An address without its scheme: two slashes are left at its beginning. Where links that leave the
site keep their scheme, the address leads to a host of the site. -/
structure LosesScheme (read? : String → Option Url) (ctx : Context)
    (scheme address left : String) : Prop where
  whole : ∃ word, lower word = lower scheme ∧ address = word ++ left
  slashes : ['/', '/'] <+: left.toList
  leads : ctx.keepExternalScheme = true → ∃ url, read? address = some url ∧ ctx.Owns url.host

/-- **The addresses that lose their scheme.** -/
theorem withoutScheme?_eq_some_iff {left : String} :
    withoutScheme? read? ctx scheme address = some left ↔
      LosesScheme read? ctx scheme address left := by
  rw [withoutScheme?]
  simp only [Option.bind_eq_bind, Option.bind_eq_some_iff]
  constructor
  · rintro ⟨rest, hafter, more, hslashes, h⟩
    have hleft : left = String.ofList rest ∧ (ctx.keepExternalScheme = true →
        ∃ url, read? address = some url ∧ ctx.Owns url.host) := by
      split at h
      · obtain ⟨url, hurl, h⟩ := Option.bind_eq_some_iff.mp h
        split at h
        · cases h
        · next hlocal =>
          cases h
          exact ⟨rfl, fun _ => ⟨url, hurl, Context.isLocalHost_iff.mp (by simpa using hlocal)⟩⟩
      · next hkeeps =>
        cases h
        exact ⟨rfl, fun hkeeps' => absurd hkeeps' hkeeps⟩
    obtain ⟨rfl, hleads⟩ := hleft
    refine ⟨afterIgnoringCase?_eq_some_iff.mp hafter, ?_, hleads⟩
    rw [String.toList_ofList, eq_append_of_isPrefixOf? hslashes]
    exact List.prefix_append _ _
  · rintro ⟨⟨word, hword, hsplit⟩, ⟨more, hmore⟩, hleads⟩
    refine ⟨left.toList, afterIgnoringCase?_eq_some_iff.mpr ⟨word, hword, ?_⟩, more, ?_, ?_⟩
    · rw [String.ofList_toList, hsplit]
    · rw [← hmore, isPrefixOf?_append]
    · rw [String.ofList_toList]
      split
      · next hkeeps =>
        obtain ⟨url, hurl, howns⟩ := hleads hkeeps
        rw [hurl, Option.bind_some, Context.isLocalHost_iff.mpr howns]
        rfl
      · rfl

/-- The parts of an address: how it begins, the host as it is written, and the rest. -/
structure Parts (address start host rest : String) : Prop where
  whole : address = start ++ (host ++ rest)
  begins : lower start = "http://" ∨ lower start = "https://" ∨ start = "//"
  inHost : ∀ c ∈ host.toList, endsWrittenHost c = false
  afterHost : ∀ c ∈ rest.toList.head?, endsWrittenHost c = true

/-- An address that begins with two slashes is read with a scheme in front of it. -/
def absolute (start address : String) : String :=
  if start = "//" then "http:" ++ address else address

/-- Only an address that begins with two slashes needs a scheme to be absolute. -/
theorem absolute_of_lower {start scheme : String} (hstart : lower start = scheme)
    (hscheme : scheme ≠ "//") (address : String) : absolute start address = address := by
  refine if_neg fun hslashes => hscheme ?_
  rw [← hstart, hslashes]
  rfl

/-- Two ways to begin are told apart by the text itself. -/
theorem afterIgnoringCase?_eq_none {word start : List Char}
    (h : ∀ rest, (word.map Char.toLower).isPrefixOf (start.map Char.toLower ++ rest) = false)
    (rest : List Char) : afterIgnoringCase? word (start ++ rest) = none := by
  rw [← Option.isNone_iff_eq_none, ← Option.not_isSome, isSome_afterIgnoringCase?, List.map_append,
    h]
  rfl

/-- **An address with a scheme** begins with one of two in any letter case, or with two slashes. -/
theorem splitScheme?_eq_some_iff {written : List Char} {whole : String} :
    splitScheme? address = some (written, whole) ↔
      ∃ start, (lower start = "http://" ∨ lower start = "https://" ∨ start = "//") ∧
        address = start ++ String.ofList written ∧ whole = absolute start address := by
  constructor
  · intro h
    rw [splitScheme?] at h
    split at h
    · next rest hrest =>
      cases h
      obtain ⟨start, hstart, hsplit⟩ := afterIgnoringCase?_eq_some_iff.mp hrest
      exact ⟨start, .inl hstart, hsplit, (absolute_of_lower hstart (by decide) address).symm⟩
    · split at h
      · next rest hrest =>
        cases h
        obtain ⟨start, hstart, hsplit⟩ := afterIgnoringCase?_eq_some_iff.mp hrest
        exact ⟨start, .inr (.inl hstart), hsplit,
          (absolute_of_lower hstart (by decide) address).symm⟩
      · split at h
        · next rest hrest =>
          cases h
          refine ⟨"//", .inr (.inr rfl), ?_, rfl⟩
          rw [← String.toList_inj, eq_append_of_isPrefixOf? hrest, String.toList_append,
            String.toList_ofList, String.toList_ofList]
        · cases h
  · rintro ⟨start, hstart, haddress, rfl⟩
    have hchars : address.toList = start.toList ++ written := by
      rw [haddress, String.toList_append, String.toList_ofList]
    rw [splitScheme?]
    rcases hstart with hstart | hstart | rfl
    · have hhttp : lower start = lower "http://" := hstart
      rw [absolute_of_lower hstart (by decide),
        afterIgnoringCase?_eq_some_iff.mpr ⟨start, hhttp, haddress⟩]
    · have hhttps : lower start = lower "https://" := hstart
      have hlower : start.toList.map Char.toLower = "https://".toList := by
        rw [← hstart, lower, String.toList_ofList]
      have hnone : afterIgnoringCase? "http://".toList address.toList = none := by
        rw [hchars]
        exact afterIgnoringCase?_eq_none (fun rest => by rw [hlower]; rfl) written
      rw [hnone, absolute_of_lower hstart (by decide),
        afterIgnoringCase?_eq_some_iff.mpr ⟨start, hhttps, haddress⟩]
    · have hnone : ∀ word : List Char, word.head? = some 'h' →
          afterIgnoringCase? word address.toList = none := by
        intro word hword
        obtain ⟨rest, rfl⟩ := List.head?_eq_some_iff.mp hword
        rw [hchars]
        exact afterIgnoringCase?_eq_none (fun rest => rfl) written
      have hslashes : ['/', '/'].isPrefixOf? ("//".toList ++ written) = some written :=
        isPrefixOf?_append ['/', '/'] written
      rw [hnone _ rfl, hnone _ rfl, hchars, hslashes]
      rfl

/-- What is left of an address without its host: one slash is put in front if there is none. -/
def asPath (rest : String) : String :=
  if rest.toList.head? = some '/' then rest else "/" ++ rest

/-- An address that leads to a host of the site. The host is written as it is read, and there is no
user, password or port. -/
structure OnSite (read? : String → Option Url) (ctx : Context) (address start host rest : String)
    (url : Url) : Prop extends Parts address start host rest where
  reads : read? (absolute start address) = some url
  alone : url.hasUser = false ∧ url.hasPassword = false ∧ url.hasPort = false
  owns : ctx.Owns url.host
  spelled : lower host = lower url.host

/-- An address of the site without its host, unless two slashes would be left. -/
def LosesHost (read? : String → Option Url) (ctx : Context) (address path : String) : Prop :=
  ∃ start host rest url, OnSite read? ctx address start host rest url ∧
    ¬ ['/', '/'] <+: rest.toList ∧ path = asPath rest

theorem asPath_slash (more : List Char) :
    asPath (String.ofList ('/' :: more)) = String.ofList ('/' :: more) := by
  rw [asPath, String.toList_ofList, List.head?_cons, if_pos rfl]

/-- A path that lacks its slash gets one. -/
theorem asPath_of_head? {rest : List Char} (h : rest.head? ≠ some '/') :
    asPath (String.ofList rest) = String.ofList ('/' :: rest) := by
  rw [asPath, String.toList_ofList, if_neg h, ← List.singleton_append, String.ofList_append]

/-- **The addresses that lose their host.** -/
theorem relative?_eq_some_iff :
    relative? read? ctx address = some path ↔ LosesHost read? ctx address path := by
  rw [relative?]
  simp only [Option.bind_eq_bind, Option.bind_eq_some_iff]
  constructor
  · rintro ⟨⟨written, whole⟩, hsplit, url, hurl, h⟩
    obtain ⟨start, hstart, haddress, rfl⟩ := splitScheme?_eq_some_iff.mp hsplit
    split at h
    · cases h
    next hplace =>
    split at h
    · cases h
    next hspelled =>
    simp only [Bool.or_eq_true, not_or, Bool.not_eq_true, Bool.not_eq_false'] at hplace
    obtain ⟨⟨⟨huser, hpassword⟩, hport⟩, hlocal⟩ := hplace
    refine ⟨start, String.ofList (written.takeWhile (!endsWrittenHost ·)),
      String.ofList (written.dropWhile (!endsWrittenHost ·)), url,
      ⟨⟨?_, hstart, ?_, ?_⟩, hurl, ⟨huser, hpassword, hport⟩, Context.isLocalHost_iff.mp hlocal,
        ?_⟩, ?_⟩
    · rw [haddress, ← String.ofList_append, List.takeWhile_append_dropWhile]
    · intro c hc
      rw [String.toList_ofList] at hc
      simpa using List.mem_takeWhile_imp hc
    · intro c hc
      rw [String.toList_ofList] at hc
      simpa using head?_dropWhile_eq_false hc
    · simpa [sameIgnoringCase] using hspelled
    · split at h
      · cases h
      · next more hmore hrest =>
        cases h
        rw [hrest, asPath_slash, String.toList_ofList]
        refine ⟨?_, rfl⟩
        rintro ⟨tail, htail⟩
        exact hmore tail (List.cons.inj htail).2.symm
      · next hnone =>
        cases h
        have hhead : (written.dropWhile (!endsWrittenHost ·)).head? ≠ some '/' := by
          intro hslash
          obtain ⟨more, hmore⟩ := List.head?_eq_some_iff.mp hslash
          exact hnone more hmore
        rw [asPath_of_head? hhead, String.toList_ofList]
        refine ⟨?_, rfl⟩
        rintro ⟨tail, htail⟩
        exact hnone ('/' :: tail) htail.symm
  · rintro ⟨start, host, rest, url, hsite, hslashes, rfl⟩
    have hruns : ∀ c ∈ rest.toList.head?, (!endsWrittenHost c) = false := fun c hc => by
      rw [hsite.afterHost c hc]
      rfl
    have hhost : ∀ c ∈ host.toList, (!endsWrittenHost c) = true := fun c hc => by
      rw [hsite.inHost c hc]
      rfl
    refine ⟨(host.toList ++ rest.toList, absolute start address),
      splitScheme?_eq_some_iff.mpr ⟨start, hsite.begins, ?_, rfl⟩, url, hsite.reads, ?_⟩
    · rw [hsite.whole, String.ofList_append, String.ofList_toList, String.ofList_toList]
    · obtain ⟨huser, hpassword, hport⟩ := hsite.alone
      simp only [takeWhile_append_stop hhost hruns, dropWhile_append_stop hhost hruns, huser,
        hpassword, hport, Context.isLocalHost_iff.mpr hsite.owns, String.ofList_toList,
        sameIgnoringCase, hsite.spelled, Bool.or_false, Bool.not_true, Bool.false_eq_true, if_false,
        beq_self_eq_true]
      rw [← String.ofList_toList (s := rest), String.toList_ofList]
      split
      · next tail htail =>
        rw [htail] at hslashes
        exact absurd (List.prefix_append ['/', '/'] tail) hslashes
      · next more _ hmore => rw [hmore, asPath_slash]
      · next hnone =>
        rw [asPath_of_head? fun hslash => ?_]
        obtain ⟨more, hmore⟩ := List.head?_eq_some_iff.mp hslash
        exact hnone more hmore

/-! ## Staying on the host -/

/-- Characters that are skipped wherever an address is read. -/
def isSkipped (c : Char) : Bool :=
  c == '\t' || c == '\n' || c == '\r'

/-- Read on a page, the address stays on the host of the page: a slash, and next to it, once what is
skipped is gone, neither a slash nor a backslash. -/
def staysOnHost (path : String) : Bool :=
  match path.toList.filter (!isSkipped ·) with
  | '/' :: more => more.head?.all fun c => c != '/' && c != '\\'
  | _ => false

/-- Whether a path stays on its host depends on the first character after its slash that a reader
does not skip. -/
theorem staysOnHost_slash (more : List Char) :
    staysOnHost (String.ofList ('/' :: more)) =
      (more.filter (!isSkipped ·)).head?.all fun c => c != '/' && c != '\\' := by
  rw [staysOnHost, String.toList_ofList]
  rfl

/-- The next character that is not skipped. -/
theorem head?_filter_eq_some_iff {more : List Char} {c : Char} :
    (more.filter (!isSkipped ·)).head? = some c ↔ isSkipped c = false ∧
      ∃ skipped rest, more = skipped ++ c :: rest ∧ ∀ d ∈ skipped, isSkipped d = true := by
  rw [List.head?_filter, List.find?_eq_some_iff_append]
  simp

/-- A path leads away from the host where what follows its first slash, but for tabs and line
breaks, is a slash of either kind. -/
theorem staysOnHost_slash_iff (more : List Char) :
    staysOnHost (String.ofList ('/' :: more)) = true ↔
      ¬ ∃ skipped c rest, more = skipped ++ c :: rest ∧ (∀ d ∈ skipped, isSkipped d = true) ∧
        (c = '/' ∨ c = '\\') := by
  rw [staysOnHost_slash]
  constructor
  · rintro h ⟨skipped, c, rest, hmore, hskipped, hc⟩
    have hnot : isSkipped c = false := by rcases hc with rfl | rfl <;> rfl
    rw [head?_filter_eq_some_iff.mpr ⟨hnot, skipped, rest, hmore, hskipped⟩, Option.all_some] at h
    rcases hc with rfl | rfl <;> cases h
  · intro h
    cases hhead : (more.filter (!isSkipped ·)).head? with
    | none => rfl
    | some c =>
      obtain ⟨-, skipped, rest, hmore, hskipped⟩ := head?_filter_eq_some_iff.mp hhead
      have hc : ¬ (c = '/' ∨ c = '\\') := fun hc => h ⟨skipped, c, rest, hmore, hskipped, hc⟩
      rw [not_or] at hc
      rw [Option.all_some, Bool.and_eq_true, bne_iff_ne, bne_iff_ne]
      exact hc

/-- What begins a query or a fragment leads nowhere else. -/
theorem staysOnHost_of_head? {rest : List Char} (hrest : ∀ c ∈ rest.head?, endsWrittenHost c = true)
    (hslash : rest.head? ≠ some '/') : staysOnHost (String.ofList ('/' :: rest)) = true := by
  rw [staysOnHost_slash_iff]
  rintro ⟨skipped, c, more, rfl, hskipped, hc⟩
  cases skipped with
  | nil =>
    rcases hc with rfl | rfl
    · exact hslash rfl
    · cases hrest _ rfl
  | cons d skipped =>
    have hends := hrest d rfl
    have hd := hskipped d List.mem_cons_self
    rw [endsWrittenHost, Bool.or_eq_true, Bool.or_eq_true, beq_iff_eq, beq_iff_eq, beq_iff_eq]
      at hends
    rcases hends with (rfl | rfl) | rfl <;> cases hd

/-- **When an address without its host stays on the host.** It begins with a slash. It leads away
exactly if the address, after its host, has a slash, then nothing but tabs and line breaks, and then
a backslash, or, with at least one of them in between, a slash. -/
theorem staysOnHost_of_relative?_iff (h : relative? read? ctx address = some path) :
    path.toList.head? = some '/' ∧
      ∃ start host rest url, OnSite read? ctx address start host rest url ∧
        (staysOnHost path = true ↔ ¬ ∃ skipped c more, rest.toList = '/' :: (skipped ++ c :: more) ∧
          (∀ d ∈ skipped, isSkipped d = true) ∧ (c = '\\' ∨ c = '/' ∧ skipped ≠ [])) := by
  obtain ⟨start, host, rest, url, hsite, hslashes, rfl⟩ := relative?_eq_some_iff.mp h
  obtain ⟨chars, rfl⟩ : ∃ chars, rest = String.ofList chars :=
    ⟨rest.toList, String.ofList_toList.symm⟩
  have hafter := hsite.afterHost
  rw [String.toList_ofList] at hslashes hafter
  by_cases hslash : chars.head? = some '/'
  · obtain ⟨more, rfl⟩ := List.head?_eq_some_iff.mp hslash
    rw [asPath_slash]
    refine ⟨by rw [String.toList_ofList]; rfl, start, host, _, url, hsite, ?_⟩
    rw [staysOnHost_slash_iff, not_iff_not, String.toList_ofList]
    refine exists_congr fun skipped => exists_congr fun c => exists_congr fun after => ?_
    rw [List.cons.injEq, eq_self_iff_true, true_and]
    refine and_congr_right fun hmore => and_congr_right fun _ => ?_
    rw [or_comm]
    refine or_congr_right ⟨fun hc => ⟨hc, ?_⟩, And.left⟩
    -- Two plain slashes would have kept the address as it is.
    rintro rfl
    exact hslashes ⟨after, by rw [hmore, hc]; rfl⟩
  · rw [asPath_of_head? hslash]
    refine ⟨by rw [String.toList_ofList]; rfl, start, host, _, url, hsite, ?_⟩
    refine iff_of_true (staysOnHost_of_head? hafter hslash) ?_
    rintro ⟨skipped, c, more, hchars, -⟩
    rw [String.toList_ofList] at hchars
    exact hslash (by rw [hchars]; rfl)

/-- A tab between two slashes is skipped by readers, so the rest would name another host. -/
theorem staysOnHost_of_relative?_iff_tab :
    relative? Url.parse? { localDomains := ["example.com"] } "//Example.com/\t/evil.net" =
        some "/\t/evil.net" ∧
      staysOnHost "/\t/evil.net" = false ∧
      ∃ start host rest url,
        OnSite Url.parse? { localDomains := ["example.com"] } "//Example.com/\t/evil.net"
          start host rest url ∧
        ∃ skipped c more, rest.toList = '/' :: (skipped ++ c :: more) ∧
          (∀ d ∈ skipped, isSkipped d = true) ∧ (c = '\\' ∨ c = '/' ∧ skipped ≠ []) := by
  have hrelative : relative? Url.parse? { localDomains := ["example.com"] }
      "//Example.com/\t/evil.net" = some "/\t/evil.net" := by decide +kernel
  have haway : staysOnHost "/\t/evil.net" = false := by decide
  obtain ⟨-, start, host, rest, url, hsite, hiff⟩ := staysOnHost_of_relative?_iff hrelative
  refine ⟨hrelative, haway, start, host, rest, url, hsite, ?_⟩
  by_contra hnot
  rw [hiff.mpr hnot] at haway
  cases haway

/-- **A link on the site can turn into one that leads away from it.** -/
theorem relative?_backslash_leadsAway :
    relative? Url.parse? { localDomains := ["example.com"] } "https://example.com/\\evil.net/x" =
        some "/\\evil.net/x" ∧
      staysOnHost "/\\evil.net/x" = false :=
  ⟨by decide +kernel, by decide⟩

end Links

end HtmlMinify
