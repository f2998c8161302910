import Reminisce.Library.Splits
import Reminisce.Library.Numerals
import Reminisce.Library.Results
import Mathlib.Data.List.TakeWhile

namespace Reminisce

open Numerals Results Splits

structure PgUrlParts where
  host : String
  port : UInt16
  user : String
  password : Option String
  dbname : String
  deriving DecidableEq, Repr

/-- `str::parse::<u16>`: digits behind an optional plus sign. -/
def parseU16 (text : List Char) : Option UInt16 :=
  let digits := if text.head? = some '+' then text.tail else text
  match Numerals.readNumber 10 none true 65536 digits with
  | some (n, []) => some (UInt16.ofNat n)
  | _ => none

/-- The user at the first colon of the credentials. -/
def pgCredentials : Option (List Char) → List Char × Option (List Char)
  | none => ("postgres".toList, none)
  | some userinfo =>
    match splitOnce ':' userinfo with
    | some (user, password) => (user, some password)
    | none => (userinfo, none)

def pgHostPort (hostport : List Char) : Except String (List Char × UInt16) :=
  match rsplitOnce ':' hostport with
  | some (host, port) =>
    match parseU16 port with
    | some n => .ok (host, n)
    | none => .error s!"invalid port '{String.ofList port}' in database URL"
  | none => .ok (hostport, 5432)

/-- The credentials up to the last `@`, and what follows them. -/
def pgAuthority (authority : List Char) : Option (List Char) × List Char :=
  match rsplitOnce '@' authority with
  | some (userinfo, hostport) => (some userinfo, hostport)
  | none => (none, authority)

def stripScheme (url : List Char) : Option (List Char) :=
  "postgres://".toList.isPrefixOf? url <|> "postgresql://".toList.isPrefixOf? url

def parsePgUrl (url : String) : Except String PgUrlParts :=
  match stripScheme url.toList with
  | none => .error s!"unsupported database URL scheme (expected postgres://…): {url}"
  | some rest => do
    let rest := rest.takeWhile (· ≠ '?')
    let (authority, dbnameRaw) := (splitOnce '/' rest).getD (rest, [])
    let (userinfo, hostport) := pgAuthority authority
    if hostport = [] then .error "database URL is missing a host"
    else
      let (user, password) := pgCredentials userinfo
      let (host, port) ← pgHostPort hostport
      if host = [] then .error "database URL is missing a host"
      else
        let dbname := if dbnameRaw = [] then "postgres".toList else dbnameRaw
        pure { host := String.ofList host, port := port, user := String.ofList user
               password := password.map String.ofList, dbname := String.ofList dbname }

/-- No separator stands in the text. -/
def Avoids (separators : List Char) (text : String) : Prop := ∀ c ∈ separators, c ∉ text.toList

instance (separators : List Char) (text : String) : Decidable (Avoids separators text) :=
  List.decidableBAll _ _

inductive PgScheme
  | postgres
  | postgresql
  deriving DecidableEq, Repr

def PgScheme.text : PgScheme → List Char
  | postgres => "postgres://".toList
  | postgresql => "postgresql://".toList

structure PgLogin where
  user : String
  password : Option String
  user_avoids : Avoids [':', '@', '/', '?'] user
  password_avoids : ∀ p ∈ password, Avoids ['/', '?'] p

/-- The components of a connection URL, free of the separators that would cut them. -/
structure PgUrl where
  scheme : PgScheme
  login : Option PgLogin
  host : String
  port : Option UInt16
  dbname : Option String
  query : Option String
  host_ne : host ≠ ""
  host_avoids : Avoids [':', '@', '/', '?'] host
  dbname_ne : dbname ≠ some ""
  dbname_avoids : ∀ d ∈ dbname, Avoids ['?'] d

/-- A part behind its separator, if it is there. -/
def optionalPart (sep : Char) : Option (List Char) → List Char
  | none => []
  | some part => sep :: part

def PgLogin.render (login : PgLogin) : List Char :=
  login.user.toList ++ optionalPart ':' (login.password.map String.toList)

namespace PgUrl

def hostPort (url : PgUrl) : List Char :=
  url.host.toList ++ optionalPart ':' (url.port.map fun port => numeral 10 port.toNat)

def authority (url : PgUrl) : List Char :=
  match url.login with
  | some login => login.render ++ '@' :: url.hostPort
  | none => url.hostPort

def render (url : PgUrl) : String :=
  String.ofList (url.scheme.text ++ (url.authority ++
    (optionalPart '/' (url.dbname.map String.toList) ++
      optionalPart '?' (url.query.map String.toList))))

/-- The components, with the defaults for absent ones. -/
def parts (url : PgUrl) : PgUrlParts :=
  { host := url.host, port := url.port.getD 5432
    user := (url.login.map PgLogin.user).getD "postgres"
    password := url.login.bind PgLogin.password
    dbname := url.dbname.getD "postgres" }

end PgUrl

section RoundTrip

variable {url : PgUrl} {login : PgLogin} {rest : List Char}

theorem stripScheme_eq_some (url rest : List Char) :
    stripScheme url = some rest ↔ ∃ scheme : PgScheme, url = scheme.text ++ rest := by
  have hshort : "postgres://".toList = ['p', 'o', 's', 't', 'g', 'r', 'e', 's', ':', '/', '/'] := by
    decide +kernel
  have hlong : "postgresql://".toList =
      ['p', 'o', 's', 't', 'g', 'r', 'e', 's', 'q', 'l', ':', '/', '/'] := by decide +kernel
  have htext : PgScheme.postgres.text = "postgres://".toList := rfl
  have htext' : PgScheme.postgresql.text = "postgresql://".toList := rfl
  rw [hshort] at htext
  rw [hlong] at htext'
  unfold stripScheme
  rw [Option.orElse_eq_orElse, Option.orElse_eq_or, Option.or_eq_some_iff, hshort, hlong]
  constructor
  · rintro (h | ⟨_, h⟩)
    · exact ⟨.postgres, htext ▸ isPrefixOf?_eq_some_iff.mp h⟩
    · exact ⟨.postgresql, htext' ▸ isPrefixOf?_eq_some_iff.mp h⟩
  · rintro ⟨scheme, rfl⟩
    cases scheme with
    | postgres =>
      rw [htext]
      exact Or.inl (isPrefixOf?_eq_some_iff.mpr rfl)
    | postgresql =>
      rw [htext']
      exact Or.inr ⟨by simp [List.isPrefixOf?], isPrefixOf?_eq_some_iff.mpr rfl⟩

theorem parseU16_numeral (port : UInt16) : parseU16 (numeral 10 port.toNat) = some port := by
  have hread : Numerals.readNumber 10 none true 65536 (numeral 10 port.toNat ++ []) =
      some (port.toNat, []) :=
    readNumber_numeral (by omega) (by omega) port.toNat_lt (by simp) ended_nil
  have hplus : (numeral 10 port.toNat).head? ≠ some '+' := by
    intro hhead
    exact absurd (isDigit_of_mem_numeral (by omega) (by omega) (List.mem_of_head? hhead)) (by decide)
  rw [List.append_nil] at hread
  simp [parseU16, hplus, hread]

theorem pgHostPort_hostPort (url : PgUrl) :
    pgHostPort url.hostPort = .ok (url.host.toList, url.port.getD 5432) := by
  have hhost : ':' ∉ url.host.toList := url.host_avoids ':' (by simp)
  unfold pgHostPort PgUrl.hostPort
  cases hport : url.port with
  | none => simp [optionalPart, rsplitOnce_eq_none hhost]
  | some port =>
    have hdigits : ':' ∉ numeral 10 port.toNat := fun h =>
      absurd (isDigit_of_mem_numeral (by omega) (by omega) h) (by decide)
    simp [optionalPart, rsplitOnce_append hdigits, parseU16_numeral]

theorem pgCredentials_render (login : PgLogin) :
    pgCredentials (some login.render) =
      (login.user.toList, login.password.map String.toList) := by
  have huser : ':' ∉ login.user.toList := login.user_avoids ':' (by simp)
  unfold pgCredentials PgLogin.render
  cases hpassword : login.password with
  | none => simp [optionalPart, splitOnce_eq_none huser]
  | some password => simp [optionalPart, splitOnce_append huser]

/-- Between the credentials and the path stand neither `@` nor what ends the authority. -/
theorem PgUrl.hostPort_avoids (url : PgUrl) :
    '@' ∉ url.hostPort ∧ '/' ∉ url.hostPort ∧ '?' ∉ url.hostPort := by
  have hport : ∀ c, digitValue 10 c = none → c ≠ ':' →
      c ∉ optionalPart ':' (url.port.map fun port => numeral 10 port.toNat) := by
    intro c hdigit hcolon hmem
    cases hport : url.port with
    | none => simp [hport, optionalPart] at hmem
    | some port =>
      simp only [hport, Option.map_some, optionalPart, List.mem_cons, hcolon, false_or] at hmem
      have hsome := isDigit_of_mem_numeral (by omega) (by omega) hmem
      simp [hdigit] at hsome
  have hhost := url.host_avoids
  unfold PgUrl.hostPort
  simp only [List.mem_append, not_or]
  exact ⟨⟨hhost '@' (by simp), hport '@' (by decide) (by decide)⟩,
    ⟨hhost '/' (by simp), hport '/' (by decide) (by decide)⟩,
    hhost '?' (by simp), hport '?' (by decide) (by decide)⟩

theorem PgLogin.render_avoids (login : PgLogin) : '/' ∉ login.render ∧ '?' ∉ login.render := by
  have huser := login.user_avoids
  have hpassword : ∀ c ∈ ['/', '?'], c ∉ optionalPart ':' (login.password.map String.toList) := by
    intro c hc hmem
    cases hp : login.password with
    | none => simp [hp, optionalPart] at hmem
    | some password =>
      simp only [hp, Option.map_some, optionalPart, List.mem_cons] at hmem
      rcases hmem with rfl | hmem
      · simp at hc
      · exact login.password_avoids password hp c hc hmem
  unfold PgLogin.render
  simp only [List.mem_append, not_or]
  exact ⟨⟨huser '/' (by simp), hpassword '/' (by simp)⟩, huser '?' (by simp), hpassword '?' (by simp)⟩

theorem PgUrl.authority_avoids (url : PgUrl) : '/' ∉ url.authority ∧ '?' ∉ url.authority := by
  obtain ⟨_, hslash, hquery⟩ := url.hostPort_avoids
  unfold PgUrl.authority
  split
  next login _ =>
    obtain ⟨hslash', hquery'⟩ := login.render_avoids
    simp [hslash, hslash', hquery, hquery']
  next => exact ⟨hslash, hquery⟩

theorem pgAuthority_authority (url : PgUrl) :
    pgAuthority url.authority = (url.login.map PgLogin.render, url.hostPort) := by
  obtain ⟨hat, _⟩ := url.hostPort_avoids
  unfold pgAuthority PgUrl.authority
  cases url.login with
  | none => simp [rsplitOnce_eq_none hat]
  | some login => simp [rsplitOnce_append hat]

/-- A rendered URL is read back, with the defaults where a part is absent. -/
theorem parsePgUrl_render (url : PgUrl) : parsePgUrl url.render = .ok url.parts := by
  obtain ⟨hslash, hquery⟩ := url.authority_avoids
  have hhost : url.host.toList ≠ [] := by simpa using url.host_ne
  have hhostPort : url.hostPort ≠ [] := by simp [PgUrl.hostPort, hhost]
  have hscheme := (stripScheme_eq_some url.render.toList _).mpr
    ⟨url.scheme, by rw [PgUrl.render, String.toList_ofList]⟩
  have hdbname : '?' ∉ optionalPart '/' (url.dbname.map String.toList) := by
    cases hd : url.dbname with
    | none => simp [optionalPart]
    | some dbname => simpa [optionalPart] using url.dbname_avoids dbname hd '?' (by simp)
  have hrest : (url.authority ++ (optionalPart '/' (url.dbname.map String.toList) ++
      optionalPart '?' (url.query.map String.toList))).takeWhile (· ≠ '?') =
      url.authority ++ optionalPart '/' (url.dbname.map String.toList) := by
    rw [← List.append_assoc]
    have havoids : '?' ∉ url.authority ++ optionalPart '/' (url.dbname.map String.toList) := by
      simp [hquery, hdbname]
    cases url.query with
    | none =>
      rw [Option.map_none, optionalPart, List.append_nil]
      exact takeWhile_eq_self havoids
    | some query => exact takeWhile_append havoids
  have hpath : (splitOnce '/' (url.authority ++ optionalPart '/' (url.dbname.map String.toList))).getD
      (url.authority ++ optionalPart '/' (url.dbname.map String.toList), []) =
      (url.authority, (url.dbname.map String.toList).getD []) := by
    cases url.dbname with
    | none => simp [optionalPart, splitOnce_eq_none hslash]
    | some dbname => simp [optionalPart, splitOnce_append hslash]
  have hlogin : pgCredentials (url.login.map PgLogin.render) =
      (((url.login.map PgLogin.user).getD "postgres").toList,
        (url.login.bind PgLogin.password).map String.toList) := by
    cases url.login with
    | none => rfl
    | some login => exact pgCredentials_render login
  have hname : (if (url.dbname.map String.toList).getD [] = [] then "postgres".toList
      else (url.dbname.map String.toList).getD []) = (url.dbname.getD "postgres").toList := by
    cases hd : url.dbname with
    | none => rfl
    | some dbname =>
      have hne : dbname ≠ "" := fun hempty => url.dbname_ne (hempty ▸ hd)
      simp [hne]
  have hpassword : String.ofList ∘ String.toList = id := funext fun _ => String.ofList_toList
  unfold parsePgUrl
  simp only [hscheme, hrest, hpath, pgAuthority_authority, hhostPort, pgHostPort_hostPort, if_false,
    hlogin, hname, ok_bind, hhost, String.ofList_toList, Option.map_map, hpassword, Option.map_id]
  rfl

end RoundTrip

/-- The port behind its colon: digits with an optional plus sign, whose value fits 16 bits, or
nothing for the default port. -/
def PortPart (text : List Char) (port : UInt16) : Prop :=
  text = [] ∧ port = 5432 ∨
    ∃ sign numeral digits, text = ':' :: (sign ++ numeral) ∧ (sign = [] ∨ sign = ['+']) ∧
      digits ≠ [] ∧ Spells 10 numeral digits ∧ ofDigits 10 digits < 65536 ∧
      port.toNat = ofDigits 10 digits

/-- A URL as the accepted host and port stand in it, between the credentials and the path or the
query. -/
structure PgLocated (url host portText : List Char) (scheme : PgScheme) (login tail : List Char) :
    Prop where
  split : url = scheme.text ++ (login ++ (host ++ (portText ++ tail)))
  login_ends : login = [] ∨ login.getLast? = some '@'
  hostPort_avoids : '@' ∉ host ++ portText
  authority_avoids : ∀ c ∈ ['/', '?'], c ∉ login ++ (host ++ portText)
  tail_starts : ∀ c, tail.head? = some c → c = '/' ∨ c = '?'
  host_avoids : portText = [] → ':' ∉ host

section Accepted

variable {url : String} {parts : PgUrlParts} {text host : List Char} {port : UInt16}

theorem parseU16_spells (h : parseU16 text = some port) :
    ∃ sign numeral digits, text = sign ++ numeral ∧ (sign = [] ∨ sign = ['+']) ∧ digits ≠ [] ∧
      Spells 10 numeral digits ∧ ofDigits 10 digits < 65536 ∧ port.toNat = ofDigits 10 digits := by
  have hnumber : ∀ numeral, (match Numerals.readNumber 10 none true 65536 numeral with
      | some (n, []) => some (UInt16.ofNat n)
      | _ => none) = some port → ∃ digits, digits ≠ [] ∧ Spells 10 numeral digits ∧
        ofDigits 10 digits < 65536 ∧ port.toNat = ofDigits 10 digits := by
    intro numeral hnumeral
    split at hnumeral
    next n hread =>
      obtain ⟨digitsText, digits, htext, hspells, hne, hvalue, hbound⟩ := readNumber_spells hread
      rw [List.append_nil] at htext
      cases Option.some.inj hnumeral
      refine ⟨digits, hne, htext ▸ hspells, hvalue ▸ hbound, ?_⟩
      rw [hvalue]
      exact UInt16.toNat_ofNat_of_lt' hbound
    next => cases hnumeral
  unfold parseU16 at h
  by_cases hplus : text.head? = some '+'
  · obtain ⟨rest, rfl⟩ := List.head?_eq_some_iff.mp hplus
    obtain ⟨digits, hdigits⟩ := hnumber rest (by simpa using h)
    exact ⟨['+'], rest, digits, rfl, Or.inr rfl, hdigits⟩
  · obtain ⟨digits, hdigits⟩ := hnumber text (by simpa [hplus] using h)
    exact ⟨[], text, digits, rfl, Or.inl rfl, hdigits⟩

theorem pgHostPort_spells (h : pgHostPort text = .ok (host, port)) :
    ∃ portText, text = host ++ portText ∧ PortPart portText port ∧
      (portText = [] → ':' ∉ host) := by
  unfold pgHostPort at h
  rcases rsplitOnce_cases ':' text with ⟨hcolon, hsplit⟩ | ⟨xs, ys, heq, hcolon, hsplit⟩
  · simp only [hsplit] at h
    obtain ⟨rfl, rfl⟩ := Prod.mk.inj (Except.ok.inj h)
    exact ⟨[], (List.append_nil _).symm, Or.inl ⟨rfl, rfl⟩, fun _ => hcolon⟩
  · simp only [hsplit] at h
    split at h
    next n hread =>
      obtain ⟨rfl, rfl⟩ := Prod.mk.inj (Except.ok.inj h)
      obtain ⟨sign, numeral, digits, rfl, hdigits⟩ := parseU16_spells hread
      exact ⟨_, heq, Or.inr ⟨sign, numeral, digits, rfl, hdigits⟩, fun hnil => by cases hnil⟩
    next => cases h

theorem pgAuthority_split (text : List Char) :
    ∃ login, text = login ++ (pgAuthority text).2 ∧ (login = [] ∨ login.getLast? = some '@') ∧
      '@' ∉ (pgAuthority text).2 := by
  unfold pgAuthority
  rcases rsplitOnce_cases '@' text with ⟨hat, hsplit⟩ | ⟨xs, ys, heq, hat, hsplit⟩
  · simp only [hsplit]
    exact ⟨[], rfl, Or.inl rfl, hat⟩
  · simp only [hsplit]
    exact ⟨xs ++ ['@'], by simpa using heq, Or.inr (by simp), hat⟩

/-- The authority, up to the path or the query. -/
theorem authority_split (rest : List Char) :
    let authority := ((splitOnce '/' (rest.takeWhile (· ≠ '?'))).getD
      (rest.takeWhile (· ≠ '?'), [])).1
    ∃ tail, rest = authority ++ tail ∧ '/' ∉ authority ∧ '?' ∉ authority ∧
      ∀ c, tail.head? = some c → c = '/' ∨ c = '?' := by
  have hquery : '?' ∉ rest.takeWhile (· ≠ '?') := fun hmem => by
    simpa using List.mem_takeWhile_imp hmem
  have hrest := (List.takeWhile_append_dropWhile (p := (· ≠ '?')) (l := rest)).symm
  have hstart : ∀ c, (rest.dropWhile (· ≠ '?')).head? = some c → c = '?' := by
    intro c hc
    have hnot := List.head?_dropWhile_not (· ≠ '?') rest
    rw [hc] at hnot
    simpa using hnot
  rcases splitOnce_cases '/' (rest.takeWhile (· ≠ '?')) with
    ⟨hslash, hsplit⟩ | ⟨xs, ys, heq, hslash, hsplit⟩
  · simp only [hsplit, Option.getD_none]
    exact ⟨_, hrest, hslash, hquery, fun c hc => Or.inr (hstart c hc)⟩
  · simp only [hsplit, Option.getD_some]
    refine ⟨'/' :: (ys ++ rest.dropWhile (· ≠ '?')), ?_, hslash, ?_, ?_⟩
    · rw [heq] at hrest
      simpa using hrest
    · rw [heq] at hquery
      exact fun hmem => hquery (List.mem_append_left _ hmem)
    · intro c hc
      exact Or.inl (by simpa using hc.symm)

theorem parsePgUrl_located (h : parsePgUrl url = .ok parts) :
    parts.host ≠ "" ∧ ∃ scheme login portText tail,
      PgLocated url.toList parts.host.toList portText scheme login tail ∧
        PortPart portText parts.port := by
  unfold parsePgUrl at h
  split at h
  next => cases h
  next rest hrest =>
    obtain ⟨scheme, hurl⟩ := (stripScheme_eq_some _ _).mp hrest
    obtain ⟨tail, htail, hslash, hquery, hstart⟩ := authority_split rest
    simp only at h htail hslash hquery
    set authority := ((splitOnce '/' (rest.takeWhile (· ≠ '?'))).getD
      (rest.takeWhile (· ≠ '?'), [])).1
    obtain ⟨login, hlogin, hends, hat⟩ := pgAuthority_split authority
    split at h
    next => cases h
    next =>
      obtain ⟨⟨host, port⟩, hport, h⟩ := bind_ok h
      obtain ⟨portText, htext, hpart, hcolon⟩ := pgHostPort_spells hport
      split at h
      next => cases h
      next hne =>
        cases Except.ok.inj h
        refine ⟨by simpa using hne, scheme, login, portText, tail, ⟨?_, hends, ?_, ?_, hstart, ?_⟩,
          hpart⟩
        · rw [hurl, htail, hlogin, htext]
          simp
        · rwa [String.toList_ofList, ← htext]
        · rw [String.toList_ofList, ← htext, ← hlogin]
          simp [hslash, hquery]
        · rwa [String.toList_ofList]

/-- A connection URL is parsed into the components it was rendered from, and what is parsed has a
host and a port that is a number of 16 bits where it is written. -/
theorem parsePgUrl_inverts_render :
    (∀ url : PgUrl, parsePgUrl url.render = .ok url.parts) ∧
      ∀ (url : String) (parts : PgUrlParts), parsePgUrl url = .ok parts →
        parts.host ≠ "" ∧ ∃ scheme login portText tail,
          PgLocated url.toList parts.host.toList portText scheme login tail ∧
            PortPart portText parts.port :=
  ⟨parsePgUrl_render, fun _ _ => parsePgUrl_located⟩

/-- A password with both separators of the credentials. -/
def sampleUrl : PgUrl :=
  { scheme := .postgres
    login := some
      { user := "bob", password := some "p@ss:w0rd"
        user_avoids := by decide +kernel
        password_avoids := by decide +kernel }
    host := "10.0.0.9", port := none, dbname := some "reminisce_db", query := some "sslmode=disable"
    host_ne := by decide +kernel
    host_avoids := by decide +kernel
    dbname_ne := by decide +kernel
    dbname_avoids := by decide +kernel }

theorem parsePgUrl_sample :
    parsePgUrl "postgres://bob:p@ss:w0rd@10.0.0.9/reminisce_db?sslmode=disable" =
        .ok ⟨"10.0.0.9", 5432, "bob", some "p@ss:w0rd", "reminisce_db"⟩ ∧
      ∃ scheme login portText tail,
        PgLocated "postgresql://:@h:+05433?x".toList "h".toList portText scheme login tail ∧
          PortPart portText 5433 := by
  have hrender : sampleUrl.render =
      "postgres://bob:p@ss:w0rd@10.0.0.9/reminisce_db?sslmode=disable" := by decide +kernel
  have haccepted : parsePgUrl "postgresql://:@h:+05433?x" = .ok ⟨"h", 5433, "", some "", "postgres"⟩ := by
    decide +kernel
  exact ⟨hrender ▸ parsePgUrl_inverts_render.1 sampleUrl,
    (parsePgUrl_inverts_render.2 _ _ haccepted).2⟩

end Accepted

end Reminisce
