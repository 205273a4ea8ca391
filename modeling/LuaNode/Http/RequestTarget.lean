import LuaNode.Http.HeaderBlock
import LuaNode.Http.Url

/-!
# The target of a request

`http.request` of a URL string: the parts that `url.parse` names become the options of a client request, whose
request line has the path alone.
-/

namespace LuaNode

/-- A port in the options: `defaultPort` is a number, `url.parse` leaves a string. -/
inductive PortValue
  | number (n : ℕ)
  | text (t : Str)
  deriving DecidableEq

/-- What the connection makes of a port. A string without digits is no integer. -/
def PortValue.toNumber : PortValue → Option ℕ
  | .number n => some n
  | .text [] => none
  | .text digits => some (Nat.ofDigitChars 10 digits 0)

/-- `host`, with the port where `port ~= defaultPort`. A string is never the number 80. -/
def PortValue.hostHeader (host : Str) : PortValue → Str
  | .number n => if n = 80 then host else host ++ ":".toList ++ decimal n
  | .text t => host ++ ":".toList ++ t

/-- A client request with what its constructor gives to `Agent:addRequest`. -/
structure RequestCall where
  message : OutgoingMessage
  host : Str
  port : PortValue

namespace OutgoingMessage

/-- `ClientRequest:__init` with the table of a URL: no method, headers, agent or credentials are given. -/
def clientRequestUrl (id : ℕ) (runtime : Runtime) (s : Socket) (options : UrlTable) : RequestCall :=
  let port := (options.port.map PortValue.text).getD (.number 80)
  let host := options.host.getD "localhost".toList
  let m := { init id .clientRequest runtime with
    method := "GET".toList
    path := options.path.getD ['/'] }
  let o := (m.setHeader s "Host".toList (.one (.str (port.hostHeader host)))).andThen fun m s =>
    ⟨{ m with useChunkedEncodingByDefault := false, last := false, shouldKeepAlive := true }, s,
      .ok none, false⟩
  ⟨o.self, host, port⟩

/-- Without a port it is the request of the same options. -/
theorem clientRequestUrl_eq (id : ℕ) (runtime : Runtime) (s : Socket) {options : UrlTable}
    (h : options.port = none) : (clientRequestUrl id runtime s options).message =
      (clientRequest id runtime s
        { path := options.path.getD ['/'], host := options.host.getD "localhost".toList }).self := by
  unfold clientRequestUrl
  rw [h]
  rfl

/-- `http.request(url)`. -/
def request (id : ℕ) (runtime : Runtime) (s : Socket) (url : Str) : Except Str RequestCall :=
  match urlParse url with
  | .error message => .error message
  | .ok options =>
    match options.protocol with
    | some protocol =>
      if protocol ≠ "http:".toList then
        .error ("Protocol: ".toList ++ protocol ++ " not supported.".toList)
      else .ok (clientRequestUrl id runtime s options)
    | none => .ok (clientRequestUrl id runtime s options)

end OutgoingMessage

open OutgoingMessage

def requestLine (target : Str) : Str := "GET ".toList ++ target ++ " HTTP/1.1\r\n".toList

namespace HttpUrl

variable (u : HttpUrl)

/-- The request line has the target of the URL, and the request goes to its host and port. -/
def SentRight (id : ℕ) (runtime : Runtime) (s : Socket) : Prop :=
  ∃ r block, request id runtime s u.text = .ok r ∧
    (r.message.implicitHeader s).self.header = some block ∧ requestLine u.target <+: block ∧
    r.host = u.host ∧ r.port.toNumber = some u.portNumber

/-! ### The request line -/

/-- The header block of a request for a URL begins with its path. -/
theorem implicitHeader_url (id : ℕ) (runtime : Runtime) (s : Socket) (options : UrlTable) :
    ∃ lines, ((clientRequestUrl id runtime s options).message.implicitHeader s).self.header =
      some (requestLine (options.path.getD ['/']) ++ lines) := by
  obtain ⟨message, hmessage⟩ : ∃ m, m = (clientRequestUrl id runtime s options).message := ⟨_, rfl⟩
  obtain ⟨value, hheaders⟩ : ∃ value, message.renderHeaders =
      .ok [("Host".toList, .one (.str value))] := by
    rw [hmessage]
    exact ⟨_, rfl⟩
  have hkind : message.kind = .clientRequest := by rw [hmessage]; rfl
  have hline : message.method ++ " ".toList ++ message.path ++ " HTTP/1.1\r\n".toList =
      requestLine (options.path.getD ['/']) := by rw [hmessage]; rfl
  -- one line is in the same place in any order
  have hwalk : (HeaderTable.map [("Host".toList, .one (.str value))]).walk message.runtime =
      [("Host".toList, .one (.str value))] :=
    List.perm_singleton.mp (message.runtime.pairs_perm _)
  have hblock := (renderBlock_iff message _ (requestLine (options.path.getD ['/']))
    (.map [("Host".toList, .one (.str value))]) _).mpr ⟨?_, rfl, rfl⟩
  · have hexpect : hasKind .expect (headerLines ((HeaderTable.map
        [("Host".toList, .one (.str value))]).walk message.runtime)) = false := by
      rw [hwalk]
      rfl
    rw [hexpect] at hblock
    rw [← hmessage, implicitHeader, hkind]
    dsimp only
    rw [hheaders]
    dsimp only
    rw [hline, storeHeader, hblock]
    simp only [Bool.false_eq_true, if_false, stored, List.append_assoc]
    exact ⟨_, rfl⟩
  · rw [hwalk]
    intro l hl
    obtain rfl := List.mem_singleton.mp hl
    rfl

/-- A target that goes on with a `;` or `?` where the path has none is not in the request line. -/
theorem requestLine_cut {base rest lines : Str} {c : Char} (hc : c = ';' ∨ c = '?') (hsemi : ';' ∉ rest)
    (hquestion : '?' ∉ rest) (more : Str) :
    ¬ requestLine (base ++ c :: more) <+: requestLine (base ++ rest) ++ lines := by
  unfold requestLine
  simp only [List.append_assoc, List.cons_append, List.prefix_append_right_inj]
  rintro ⟨tail, htail⟩
  cases rest with
  | nil =>
    have hhead := congrArg List.head? htail
    rcases hc with rfl | rfl <;> exact absurd hhead (by simp)
  | cons d rest =>
    have hd : c = d := by simpa using congrArg List.head? htail
    rcases hc with rfl | rfl
    · exact hsemi (hd ▸ List.mem_cons_self)
    · exact hquestion (hd ▸ List.mem_cons_self)

/-- Params or query begin with their delimiter. -/
theorem suffix_cons (h : u.suffix ≠ []) : ∃ c more, u.suffix = c :: more ∧ (c = ';' ∨ c = '?') := by
  unfold suffix at h ⊢
  cases hparams : u.params with
  | some t => exact ⟨';', t ++ part '?' u.query, rfl, .inl rfl⟩
  | none =>
    rw [hparams] at h
    cases hquery : u.query with
    | some t => exact ⟨'?', t, rfl, .inr rfl⟩
    | none =>
      rw [hquery] at h
      exact absurd rfl h

theorem suffix_eq_nil_iff : u.suffix = [] ↔ u.params = none ∧ u.query = none := by
  unfold suffix
  cases u.params <;> cases u.query <;> simp [part]

theorem parseAuthority_fields (parsed : ParsedUrl) :
    parsed.parseAuthority.scheme = parsed.scheme ∧ parsed.parseAuthority.path = parsed.path := by
  unfold ParsedUrl.parseAuthority
  split
  · exact ⟨rfl, rfl⟩
  · dsimp only
    split <;> exact ⟨rfl, rfl⟩

/-- The path that the request has of the URL. -/
theorem request_text (id : ℕ) (runtime : Runtime) (s : Socket) :
    ∃ options, ParsedUrl.parse u.text = some options.toParsedUrl ∧
      request id runtime s u.text = .ok (clientRequestUrl id runtime s options) ∧
      options.path = pathOf (u.body.dropWhile (· ≠ '/')) := by
  have hparse := parse_http u.hash_not_mem_body u.fragment
  obtain ⟨parsed, hparsed⟩ : ∃ parsed, ParsedUrl.parse u.text = some parsed := ⟨_, hparse⟩
  have hfields := Option.some.inj (hparsed.symm.trans hparse)
  obtain ⟨hscheme, hpath⟩ : parsed.scheme = some "http".toList ∧
      parsed.path = pathOf (u.body.dropWhile (· ≠ '/')) := by
    rw [hfields]
    exact parseAuthority_fields _
  refine ⟨{ parsed with
    href := u.text, pathname := parsed.path, protocol := parsed.scheme.map (· ++ [':']),
    hash := parsed.fragment.map ('#' :: ·) }, hparsed, ?_, hpath⟩
  rw [request, urlParse, hparsed]
  dsimp only
  rw [hscheme]
  rfl

/-- The target that is sent, against the path: where a query without a path has a slash in it, what follows
is taken for the path. -/
theorem sent_target {options : UrlTable}
    (hparse : ParsedUrl.parse u.text = some options.toParsedUrl)
    (hpath : options.path = pathOf (u.body.dropWhile (· ≠ '/'))) :
    ∃ rest, options.path.getD ['/'] = u.path.getD ['/'] ++ rest ∧ ';' ∉ rest ∧ '?' ∉ rest := by
  cases hgiven : u.path with
  | some t =>
    have hgrammar := u.parse_text fun hnone => by rw [hgiven] at hnone; cases hnone
    have hoptions := congrArg ParsedUrl.path (Option.some.inj (hparse.symm.trans hgrammar))
    refine ⟨[], ?_, List.not_mem_nil, List.not_mem_nil⟩
    rw [hoptions, hgiven, List.append_nil]
  | none =>
    cases hsent : options.path with
    | none => exact ⟨[], rfl, List.not_mem_nil, List.not_mem_nil⟩
    | some t =>
      obtain ⟨rest, rfl, hsemi, hquestion⟩ := path_of_rest (hpath.symm.trans hsent)
      exact ⟨rest, rfl, hsemi, hquestion⟩

/-- An empty port is no integer; every other port that the grammar has is read as it stands. -/
theorem toNumber_iff : ((u.port.map PortValue.text).getD (.number 80)).toNumber =
    some u.portNumber ↔ u.port ≠ some [] := by
  unfold portNumber
  cases hport : u.port with
  | none => simp [PortValue.toNumber]
  | some t =>
    cases t with
    | nil => simp [PortValue.toNumber]
    | cons c t => simp [PortValue.toNumber]

/-- Params and query do not reach the request line. -/
theorem not_sentRight (h : u.suffix ≠ []) (id : ℕ) (runtime : Runtime) (s : Socket) :
    ¬ u.SentRight id runtime s := by
  obtain ⟨options, hparse, hrequest, hpath⟩ := u.request_text id runtime s
  obtain ⟨lines, hblock⟩ := implicitHeader_url id runtime s options
  rintro ⟨r, block, hr, hheader, hline, -⟩
  obtain rfl := Except.ok.inj (hrequest.symm.trans hr)
  obtain rfl := Option.some.inj (hblock.symm.trans hheader)
  obtain ⟨c, more, hcons, hc⟩ := u.suffix_cons h
  obtain ⟨rest, hsent, hsemi, hquestion⟩ := u.sent_target hparse hpath
  rw [target, hcons, hsent] at hline
  exact requestLine_cut hc hsemi hquestion more hline

/-- `http://h/p?q`. -/
def withQuery : HttpUrl where
  host := ['h']
  bracketed := false
  port := none
  path := some ['/', 'p']
  params := none
  query := some ['q']
  fragment := none
  host_nonempty := by simp
  host_plain := by simp
  host_colon := by decide
  port_digits := by simp
  path_slash := by simp
  path_plain := by simp
  params_plain := by simp
  query_plain := by simp

end HttpUrl

end LuaNode
