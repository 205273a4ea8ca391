import LuaNode.Library.Delimiter
import LuaNode.Library.Text

/-!
# URLs

`parse` of `__private_url.lua`, which cuts the parts of a URL off one after the other, and of `url.lua`,
which adds the names that `http.lua` reads. An authority with neither path nor end reaches up to the
next slash, so that params and query right behind it become part of it.
-/

namespace LuaNode

/-- The table of `__private_url.parse`. -/
structure ParsedUrl where
  scheme : Option Str := none
  authority : Option Str := none
  userinfo : Option Str := none
  user : Option Str := none
  password : Option Str := none
  host : Option Str := none
  port : Option Str := none
  path : Option Str := none
  params : Option Str := none
  query : Option Str := none
  fragment : Option Str := none
  deriving DecidableEq

namespace ParsedUrl

/-- `[%w%+%-%.]`. -/
def isSchemeChar (c : Char) : Bool := c.isAlphanum || c = '+' || c = '-' || c = '.'

/-- `"^([%w][%w%+%-%.]*)%:"`. -/
def cutScheme (url : Str) : Option Str × Str :=
  if url.head?.any Char.isAlphanum then
    match url.dropWhile isSchemeChar with
    | ':' :: rest => (some (url.takeWhile isSchemeChar), rest)
    | _ => (none, url)
  else (none, url)

/-- `"^//([^/]*)"`. -/
def cutAuthority : Str → Option Str × Str
  | '/' :: '/' :: rest => (some (rest.takeWhile (· ≠ '/')), rest.dropWhile (· ≠ '/'))
  | url => (none, url)

/-- `"^([^@]*)@"`. -/
def cutUserinfo (authority : Str) : Option Str × Str :=
  match cutFirst '@' authority with
  | (userinfo, some rest) => (some userinfo, rest)
  | (_, none) => (none, authority)

/-- `string.match(authority, "^%[(.+)%]$") or authority`. -/
def unbracket : Str → Str
  | '[' :: rest => if 2 ≤ rest.length ∧ rest.getLast? = some ']' then rest.dropLast else '[' :: rest
  | authority => authority

def parseAuthority (parsed : ParsedUrl) : ParsedUrl :=
  match parsed.authority with
  | none => parsed
  | some authority =>
    let (userinfo, authority) := cutUserinfo authority
    let (authority, port) := cutLast ':' (· ≠ ']') authority
    let parsed := { parsed with
      userinfo := userinfo
      port := port
      host := if authority ≠ [] then some (unbracket authority) else none }
    match userinfo with
    | none => parsed
    | some userinfo =>
      let (user, password) := cutLast ':' (fun _ => true) userinfo
      { parsed with user := some user, password := password }

/-- `parse` of `__private_url.lua`. -/
def parse (url : Str) : Option ParsedUrl :=
  if url = [] then none
  else
    let (url, fragment) := cutFirst '#' url
    let (scheme, url) := cutScheme url
    let (authority, url) := cutAuthority url
    let (url, query) := cutFirst '?' url
    let (url, params) := cutFirst ';' url
    let path := if url ≠ [] then some url else none
    some (parseAuthority { scheme, authority, path, params, query, fragment })

end ParsedUrl

/-- The table of `url.parse`. -/
structure UrlTable extends ParsedUrl where
  href : Str
  pathname : Option Str
  protocol : Option Str
  hash : Option Str
  deriving DecidableEq

/-- `parse` of `url.lua`. -/
def urlParse (url : Str) : Except Str UrlTable :=
  match ParsedUrl.parse url with
  | none => .error "attempt to index local 'parsed' (a nil value)".toList
  | some parsed =>
    .ok { parsed with
      href := url
      pathname := parsed.path
      protocol := parsed.scheme.map (· ++ [':'])
      hash := parsed.fragment.map ('#' :: ·) }

/-! ### The grammar -/

/-- A part that may be missing, with the character in front of it. -/
def part (d : Char) (t : Option Str) : Str := (t.map (d :: ·)).getD []

/-- The parts of `http://host[:port][/path][;params][?query][#fragment]`. A host is a name, or an address
in brackets. -/
structure HttpUrl where
  host : Str
  bracketed : Bool
  port : Option Str
  path : Option Str
  params : Option Str
  query : Option Str
  fragment : Option Str
  host_nonempty : host ≠ []
  host_plain : ∀ c ∈ host, c ∉ ['/', ';', '?', '#', '@', '[', ']']
  host_colon : bracketed = false → ':' ∉ host
  port_digits : ∀ t ∈ port, ∀ c ∈ t, c.isDigit = true
  path_slash : ∀ t ∈ path, t.head? = some '/'
  path_plain : ∀ t ∈ path, ∀ c ∈ t, c ∉ [';', '?', '#']
  params_plain : ∀ t ∈ params, ∀ c ∈ t, c ∉ ['?', '#']
  query_plain : ∀ t ∈ query, '#' ∉ t

namespace HttpUrl

variable (u : HttpUrl)

def hostText : Str := if u.bracketed then '[' :: (u.host ++ [']']) else u.host

def authority : Str := u.hostText ++ part ':' u.port

/-- The params and the query, exactly as they appear. -/
def suffix : Str := part ';' u.params ++ part '?' u.query

/-- What stands between the scheme and the fragment. -/
def body : Str := u.authority ++ (u.path.getD [] ++ u.suffix)

def text : Str := "http://".toList ++ u.body ++ part '#' u.fragment

/-- The path, or a slash, followed by the params and the query. -/
def target : Str := u.path.getD ['/'] ++ u.suffix

def portNumber : ℕ :=
  match u.port with
  | none | some [] => 80
  | some digits => Nat.ofDigitChars 10 digits 0

theorem mem_part {d : Char} {t : Option Str} {c : Char} (h : c ∈ part d t) :
    c = d ∨ ∃ s ∈ t, c ∈ s := by
  cases t with
  | none => simp [part] at h
  | some s => simpa [part] using h

/-- The authority has none of the characters that end it. -/
theorem not_mem_authority {c : Char} (hc : c ∈ ['/', ';', '?', '#', '@']) : c ∉ u.authority := by
  have hport : c ∉ part ':' u.port := by
    intro hmem
    rcases mem_part hmem with rfl | ⟨t, ht, hct⟩
    · exact absurd hc (by decide)
    · have hdigit := u.port_digits t ht c hct
      simp only [List.mem_cons, List.not_mem_nil, or_false] at hc
      rcases hc with rfl | rfl | rfl | rfl | rfl <;> exact absurd hdigit (by decide)
  have hname : c ∉ u.host := by
    intro hmem
    have hplain := u.host_plain c hmem
    simp only [List.mem_cons, List.not_mem_nil, or_false, not_or] at hc hplain
    tauto
  have hbrackets : c ≠ '[' ∧ c ≠ ']' := by
    simp only [List.mem_cons, List.not_mem_nil, or_false] at hc
    rcases hc with rfl | rfl | rfl | rfl | rfl <;> decide
  unfold authority hostText
  split_ifs <;> simp [hport, hname, hbrackets]

theorem not_mem_path {c : Char} (hc : c ∈ [';', '?', '#']) : c ∉ u.path.getD [] := by
  cases hpath : u.path with
  | none => simp
  | some t => exact fun hmem => u.path_plain t hpath c hmem hc

theorem hash_not_mem_body : '#' ∉ u.body := by
  have hauthority := u.not_mem_authority (c := '#') (by decide)
  have hpath := u.not_mem_path (c := '#') (by decide)
  have hparams : '#' ∉ part ';' u.params := by
    intro hmem
    rcases mem_part hmem with heq | ⟨t, ht, hct⟩
    · exact absurd heq (by decide)
    · exact u.params_plain t ht '#' hct (by decide)
  have hquery : '#' ∉ part '?' u.query := by
    intro hmem
    rcases mem_part hmem with heq | ⟨t, ht, hct⟩
    · exact absurd heq (by decide)
    · exact u.query_plain t ht hct
  simp [body, suffix, hauthority, hpath, hparams, hquery]

/-! ### The parts read back -/

/-- What `parse` takes for the path in what the authority has left. -/
def pathOf (rest : Str) : Option Str :=
  let path := (cutFirst ';' (cutFirst '?' rest).1).1
  if path ≠ [] then some path else none

/-- What is left of a text with scheme and authority once the fragment is off. -/
theorem parse_http {body : Str} (h : '#' ∉ body) (fragment : Option Str) :
    ParsedUrl.parse ("http://".toList ++ body ++ part '#' fragment) =
      some (ParsedUrl.parseAuthority {
        scheme := some "http".toList
        authority := some (body.takeWhile (· ≠ '/'))
        path := pathOf (body.dropWhile (· ≠ '/'))
        params := (cutFirst ';' (cutFirst '?' (body.dropWhile (· ≠ '/'))).1).2
        query := (cutFirst '?' (body.dropWhile (· ≠ '/'))).2
        fragment := fragment }) := by
  have hhash : '#' ∉ "http://".toList ++ body := by
    simp only [List.mem_append, not_or]
    exact ⟨by decide, h⟩
  have hfragment := cutFirst_optional hhash fragment
  have hscheme : ParsedUrl.cutScheme ("http://".toList ++ body) =
      (some "http".toList, '/' :: '/' :: body) := rfl
  have hnonempty : "http://".toList ++ body ++ part '#' fragment ≠ [] := by simp
  rw [ParsedUrl.parse, if_neg hnonempty]
  unfold part
  rw [hfragment]
  dsimp only
  rw [hscheme]
  rfl

theorem cutUserinfo_authority : ParsedUrl.cutUserinfo u.authority = (none, u.authority) := by
  rw [ParsedUrl.cutUserinfo, cutFirst_of_not_mem (u.not_mem_authority (by decide))]

theorem cutLast_authority : cutLast ':' (· ≠ ']') u.authority = (u.hostText, u.port) := by
  unfold authority
  cases hport : u.port with
  | none =>
    have hempty : u.hostText ++ part ':' none = u.hostText := List.append_nil _
    rw [hempty]
    unfold hostText
    cases hbracketed : u.bracketed with
    | false => exact cutLast_of_not_mem (u.host_colon hbracketed)
    | true => exact cutLast_of_last ('[' :: u.host) (by decide) (by decide)
  | some digits =>
    refine cutLast_append u.hostText fun c hc => ?_
    have hdigit := u.port_digits digits hport c hc
    constructor
    · rintro rfl
      exact absurd hdigit (by decide)
    · rw [decide_eq_true_eq]
      rintro rfl
      exact absurd hdigit (by decide)

theorem unbracket_hostText : ParsedUrl.unbracket u.hostText = u.host := by
  unfold hostText
  cases hbracketed : u.bracketed with
  | false =>
    obtain ⟨c, rest, hhost⟩ := List.exists_cons_of_ne_nil u.host_nonempty
    have hplain := u.host_plain c (hhost ▸ List.mem_cons_self)
    have hc : c ≠ '[' := by
      rintro rfl
      exact hplain (by decide)
    rw [hhost]
    simp only [Bool.false_eq_true, if_false]
    unfold ParsedUrl.unbracket
    split
    next heq => exact absurd (List.cons.inj heq).1 hc
    next => rfl
  | true =>
    have hlength : 0 < u.host.length := List.length_pos_iff.mpr u.host_nonempty
    simp [ParsedUrl.unbracket, Nat.one_le_iff_ne_zero, u.host_nonempty]

/-- The authority gives back the host and the port. -/
theorem parseAuthority_authority (parsed : ParsedUrl) (h : parsed.authority = some u.authority) :
    parsed.parseAuthority = { parsed with userinfo := none, port := u.port, host := some u.host } := by
  have hnonempty : u.hostText ≠ [] := by
    unfold hostText
    split_ifs
    · exact List.cons_ne_nil _ _
    · exact u.host_nonempty
  unfold ParsedUrl.parseAuthority
  rw [h]
  dsimp only
  rw [u.cutUserinfo_authority]
  dsimp only
  rw [u.cutLast_authority]
  dsimp only
  rw [if_pos hnonempty, u.unbracket_hostText]

theorem cut_body (h : u.path = none → u.suffix = []) :
    u.body.takeWhile (· ≠ '/') = u.authority ∧
      u.body.dropWhile (· ≠ '/') = u.path.getD [] ++ u.suffix := by
  have hauthority : ∀ c ∈ u.authority, decide (c ≠ '/') = true := by
    intro c hc
    rw [decide_eq_true_eq]
    rintro rfl
    exact u.not_mem_authority (by decide) hc
  have hslash : ∀ c ∈ (u.path.getD [] ++ u.suffix).head?, decide (c ≠ '/') = false := by
    cases hpath : u.path with
    | none => simp [h hpath]
    | some t =>
      obtain ⟨rest, rfl⟩ := List.head?_eq_some_iff.mp (u.path_slash t hpath)
      simp
  exact ⟨takeWhile_append_stop hauthority hslash, dropWhile_append_stop hauthority hslash⟩

/-- Behind a path nothing gets lost. -/
theorem cut_rest : cutFirst '?' (u.path.getD [] ++ u.suffix) =
      (u.path.getD [] ++ part ';' u.params, u.query) ∧
    cutFirst ';' (u.path.getD [] ++ part ';' u.params) = (u.path.getD [], u.params) := by
  have hquestion : '?' ∉ u.path.getD [] ++ part ';' u.params := by
    rw [List.mem_append, not_or]
    refine ⟨u.not_mem_path (by decide), fun hmem => ?_⟩
    rcases mem_part hmem with heq | ⟨t, ht, hct⟩
    · exact absurd heq (by decide)
    · exact u.params_plain t ht '?' hct (by decide)
  refine ⟨?_, cutFirst_optional (u.not_mem_path (by decide)) u.params⟩
  rw [suffix, ← List.append_assoc]
  exact cutFirst_optional hquestion u.query

/-- `parse` follows the grammar where params and query stand behind a path. -/
theorem parse_text (h : u.path = none → u.suffix = []) : ParsedUrl.parse u.text = some {
    scheme := some "http".toList
    authority := some u.authority
    host := some u.host
    port := u.port
    path := u.path
    params := u.params
    query := u.query
    fragment := u.fragment } := by
  obtain ⟨htake, hdrop⟩ := u.cut_body h
  obtain ⟨hquery, hparams⟩ := u.cut_rest
  have hpath : pathOf (u.path.getD [] ++ u.suffix) = u.path := by
    unfold pathOf
    rw [hquery, hparams]
    cases hpath : u.path with
    | none => rfl
    | some t =>
      obtain ⟨rest, rfl⟩ := List.head?_eq_some_iff.mp (u.path_slash t hpath)
      rfl
  unfold text
  rw [parse_http u.hash_not_mem_body, htake, hdrop, hpath, hquery, hparams]
  rw [u.parseAuthority_authority _ rfl]

/-- The path begins with a slash and ends before the params and the query, whatever became the
authority. -/
theorem path_of_rest {body path : Str} (h : pathOf (body.dropWhile (· ≠ '/')) = some path) :
    ∃ rest, path = '/' :: rest ∧ ';' ∉ rest ∧ '?' ∉ rest := by
  unfold pathOf at h
  dsimp only at h
  split_ifs at h with hnonempty
  obtain rfl := Option.some.inj h
  obtain ⟨c, rest, hcut⟩ := List.exists_cons_of_ne_nil hnonempty
  have hquestion := not_mem_cutFirst '?' (body.dropWhile (· ≠ '/'))
  have hsemicolon := not_mem_cutFirst ';' (cutFirst '?' (body.dropWhile (· ≠ '/'))).1
  have hprefix := prefix_cutFirst ';' (cutFirst '?' (body.dropWhile (· ≠ '/'))).1
  have hfront := hprefix.trans (prefix_cutFirst '?' _)
  have hsub := hprefix.subset
  rw [hcut] at hsemicolon hfront hsub
  have hslash : c = '/' := by
    obtain ⟨tail, htail⟩ := hfront
    have hhead := List.head?_dropWhile_not (fun c : Char => decide (c ≠ '/')) body
    rw [← htail] at hhead
    simpa using hhead
  rw [hcut, hslash]
  refine ⟨rest, rfl, fun hmem => hsemicolon (List.mem_cons_of_mem c hmem), fun hmem => ?_⟩
  exact hquestion (hsub (List.mem_cons_of_mem c hmem))

end HttpUrl

end LuaNode
