import Precall.Client.Privacy

namespace Precall.Client

open TextLib

/-!
# The host of an address

`url_host` (`precall-client/src/meta.rs`) and `Exclusions::domain_excluded` (`privacy.rs`) on the
addresses they are for: `scheme://[userinfo@]host[:port][/path][?query][#fragment]` with the
scheme `http` or `https` in any case of letters and a registered name as host.

* `urlHost_text` — what `url_host` returns: without the scheme, everything up to the first of the
  four delimiters; a scheme with a capital is not stripped, and a user name is not skipped;
* `domainExcluded_lower` — on the right host the exclusion test is right, also at the ends of
  labels;
* `host_matched_iff` — so both are right exactly if the scheme is in lower case and no userinfo is
  in the way, but for the userinfo or the scheme that happens to spell the host.
-/

/-! ### Addresses -/

/-- A letter that stands for itself in a URL. -/
def isUnreserved (c : Char) : Bool := c.isAlphanum || c == '-' || c == '.' || c == '_' || c == '~'

/-- A letter that may separate parts of a component. -/
def isSubDelim (c : Char) : Bool :=
  ['!', '$', '&', '\x27', '(', ')', '*', '+', ',', ';', '='].contains c

/-- A character of a registered name; `%` starts a percent-encoding. -/
def isRegName (c : Char) : Bool := isUnreserved c || isSubDelim c || c == '%'

/-- A character of a userinfo. -/
def isUserinfo (c : Char) : Bool := isRegName c || c == ':'

/-- A character of a path. -/
def isPath (c : Char) : Bool := isRegName c || c == ':' || c == '@' || c == '/'

/-- A character of a query or a fragment. -/
def isQuery (c : Char) : Bool := isPath c || c == '?'

/-- The addresses `url_host` is about, in their parts, each of the letters that its part allows. -/
structure HttpUrl where
  scheme : List Char
  userinfo : Option (List Char)
  host : List Char
  port : Option (List Char)
  path : List Char
  query : Option (List Char)
  fragment : Option (List Char)
  scheme_http : scheme.map Char.toLower = "http".toList ∨ scheme.map Char.toLower = "https".toList
  userinfo_chars : ∀ u ∈ userinfo, ∀ c ∈ u, isUserinfo c = true
  host_chars : ∀ c ∈ host, isRegName c = true
  port_chars : ∀ p ∈ port, ∀ c ∈ p, c.isDigit = true
  path_chars : ∀ c ∈ path, isPath c = true
  path_absolute : ∀ c ∈ path.head?, c = '/'
  query_chars : ∀ q ∈ query, ∀ c ∈ q, isQuery c = true
  fragment_chars : ∀ f ∈ fragment, ∀ c ∈ f, isQuery c = true

namespace HttpUrl

/-- What comes after the host. -/
def afterHost (u : HttpUrl) : List Char :=
  u.port.elim [] (':' :: ·) ++ (u.path ++ (u.query.elim [] ('?' :: ·) ++
    u.fragment.elim [] ('#' :: ·)))

/-- What comes after `scheme://`. -/
def authority (u : HttpUrl) : List Char :=
  u.userinfo.elim [] (· ++ ['@']) ++ (u.host ++ u.afterHost)

/-- The address as a text. -/
def text (u : HttpUrl) : String := String.ofList (u.scheme ++ ("://".toList ++ u.authority))

/-- The host in lower case. -/
def lowerHost (u : HttpUrl) : String := String.ofList (u.host.map Char.toLower)

end HttpUrl

/-- Does a host, in lower case, belong to a domain?  It is the domain in lower case, or ends with it
    behind a dot. -/
def Within (host domain : String) : Prop :=
  host = domain ∨ ∃ sub, host = sub ++ ("." ++ domain)

/-- The delimiters `url_host` splits at. -/
def isHostEnd (c : Char) : Bool := c == '/' || c == '?' || c == '#' || c == ':'

/-! ### Delimiters -/

/-- What ends a host, case by case. -/
theorem isHostEnd_iff {c : Char} :
    isHostEnd c = true ↔ c = '/' ∨ c = '?' ∨ c = '#' ∨ c = ':' := by
  simp [isHostEnd, or_assoc]

/-- Letters and digits of ASCII are ASCII. -/
private theorem ascii_of_isAlphanum {c : Char} (h : c.isAlphanum = true) : c.toNat < 128 := by
  have hbelow {d : Char} (hle : c.val ≤ d.val) (hd : d.toNat < 128) : c.toNat < 128 :=
    (UInt32.le_iff_toNat_le.mp hle).trans_lt hd
  rcases Bool.or_eq_true_iff.mp h with halpha | hdigit
  · rcases Bool.or_eq_true_iff.mp halpha with hupper | hlower
    · exact hbelow (d := 'Z') (of_decide_eq_true hupper).2 (by decide)
    · exact hbelow (d := 'z') (of_decide_eq_true (Bool.and_eq_true_iff.mp hlower).2) (by decide)
  · exact hbelow (d := '9') (of_decide_eq_true (Bool.and_eq_true_iff.mp hdigit).2) (by decide)

/-- A character of a name is no delimiter, and is ASCII, so a host is taken whole. -/
theorem hostEnd_of_regName {c : Char} (h : isRegName c = true) :
    isHostEnd c = false ∧ c.toNat < 128 := by
  constructor
  · refine Bool.eq_false_iff.mpr fun hend => ?_
    rcases isHostEnd_iff.mp hend with rfl | rfl | rfl | rfl <;> exact absurd h (by decide)
  · unfold isRegName isUnreserved isSubDelim at h
    simp only [Bool.or_eq_true, beq_iff_eq, List.contains_iff_mem, List.mem_cons,
      List.not_mem_nil, or_false] at h
    rcases h with (((((h | rfl) | rfl) | rfl) | rfl) | h) | rfl
    · exact ascii_of_isAlphanum h
    all_goals first
      | decide
      | rcases h with rfl | rfl | rfl | rfl | rfl | rfl | rfl | rfl | rfl | rfl | rfl <;> decide

/-- A letter of the scheme is no delimiter either. -/
theorem hostEnd_of_scheme (u : HttpUrl) {c : Char} (h : c ∈ u.scheme) :
    isHostEnd c = false ∧ c.toNat < 128 := by
  have hlower : c.toLower ∈ "https".toList := by
    have hmem := List.mem_map_of_mem (f := Char.toLower) h
    rcases u.scheme_http with hscheme | hscheme <;> rw [hscheme] at hmem
    · exact (by decide : "http".toList ⊆ "https".toList) hmem
    · exact hmem
  constructor
  · refine Bool.eq_false_iff.mpr fun hend => ?_
    rcases isHostEnd_iff.mp hend with rfl | rfl | rfl | rfl <;> exact absurd hlower (by decide)
  · have hascii : ("https".toList.all fun d => d.toNat < 128) = true := by decide
    exact ascii_toLower.mp (of_decide_eq_true (List.all_eq_true.mp hascii _ hlower))

/-- What comes after the host starts with a delimiter. -/
theorem HttpUrl.afterHost_head (u : HttpUrl) : ∀ c ∈ u.afterHost.head?, isHostEnd c = true := by
  unfold afterHost
  intro c hc
  cases hport : u.port with
  | some p =>
    obtain rfl : ':' = c := by simpa [hport] using hc
    rfl
  | none =>
    cases hpath : u.path with
    | cons d rest =>
      have hd : d = '/' := u.path_absolute d (by rw [hpath]; rfl)
      obtain rfl : '/' = c := by simpa [hport, hpath, hd] using hc
      rfl
    | nil =>
      cases hquery : u.query with
      | some q =>
        obtain rfl : '?' = c := by simpa [hport, hpath, hquery] using hc
        rfl
      | none =>
        cases hfragment : u.fragment with
        | some f =>
          obtain rfl : '#' = c := by simpa [hport, hpath, hquery, hfragment] using hc
          rfl
        | none => simp [hport, hpath, hquery, hfragment] at hc

/-- The piece before the first delimiter. -/
theorem takeWhile_hostEnd {front rest : List Char} (hfront : ∀ c ∈ front, isHostEnd c = false)
    (hrest : ∀ c ∈ rest.head?, isHostEnd c = true) :
    (front ++ rest).takeWhile (fun c => !isHostEnd c) = front := by
  rw [List.takeWhile_append_of_pos fun c hc => by rw [hfront c hc]; rfl]
  cases rest with
  | nil => simp
  | cons c rest => simp [hrest c rfl]

/-! ### `url_host` -/

/-- Is the scheme in lower case? -/
def HttpUrl.lowerScheme (u : HttpUrl) : Prop := u.scheme = "http".toList ∨ u.scheme = "https".toList

instance (u : HttpUrl) : Decidable u.lowerScheme := inferInstanceAs (Decidable (_ ∨ _))

/-- What `url_host` takes for the host: what a stripped scheme leaves before the first delimiter,
    or the scheme. -/
def HttpUrl.hostPiece (u : HttpUrl) : List Char :=
  if u.lowerScheme then
    match u.userinfo with
    | none => u.host
    | some info =>
      if ':' ∈ info then info.takeWhile (· != ':') else info ++ '@' :: u.host
  else u.scheme

/-- The letters of the scheme, cut where the proofs below need it. -/
private theorem http_split : "http://".toList = "http".toList ++ "://".toList ∧
    "http://".toList = "http:".toList ++ "//".toList := by decide

/-- The same for the longer scheme. -/
private theorem https_split : "https://".toList = "https".toList ++ "://".toList ∧
    "https://".toList = "http".toList ++ "s://".toList := by decide

/-- The two schemes with their next letter are as long as each other, so a prefix of that length
    tells them apart. -/
private theorem http_lengths : "https".toList.length = "http:".toList.length := by decide

/-- And they are not the same. -/
private theorem http_colon : "http:".toList.map Char.toLower ≠ "https".toList := by decide

/-- `http://` in front of an address is its scheme. -/
private theorem strip_http (u : HttpUrl) {rest : String}
    (h : stripPrefix? u.text "http://" = some rest) :
    u.scheme = "http".toList ∧ rest.toList = u.authority := by
  have htext : u.scheme ++ ("://".toList ++ u.authority) = "http://".toList ++ rest.toList :=
    String.toList_ofList.symm.trans (stripPrefix?_eq_some.mp h)
  rcases u.scheme_http with hscheme | hscheme
  · have hlength : u.scheme.length = "http".toList.length := by rw [← hscheme, List.length_map]
    rw [http_split.1, List.append_assoc] at htext
    obtain ⟨hhead, htail⟩ := List.append_inj htext hlength
    exact ⟨hhead, (List.append_cancel_left htail).symm⟩
  · -- the fifth character of the scheme is an s
    have hlength : u.scheme.length = "http:".toList.length := by
      rw [← List.length_map Char.toLower, hscheme, http_lengths]
    rw [http_split.2, List.append_assoc] at htext
    rw [(List.append_inj htext hlength).1] at hscheme
    exact absurd hscheme http_colon

/-- `https://` in front of an address is its scheme. -/
private theorem strip_https (u : HttpUrl) {rest : String}
    (h : stripPrefix? u.text "https://" = some rest) :
    u.scheme = "https".toList ∧ rest.toList = u.authority := by
  have htext : u.scheme ++ ("://".toList ++ u.authority) = "https://".toList ++ rest.toList :=
    String.toList_ofList.symm.trans (stripPrefix?_eq_some.mp h)
  rcases u.scheme_http with hscheme | hscheme
  · -- the colon comes after four characters
    have hlength : u.scheme.length = "http".toList.length := by rw [← hscheme, List.length_map]
    rw [https_split.2, List.append_assoc] at htext
    have hcolon := (List.cons.inj (List.append_inj htext hlength).2).1
    exact absurd hcolon (by decide)
  · have hlength : u.scheme.length = "https".toList.length := by rw [← hscheme, List.length_map]
    rw [https_split.1, List.append_assoc] at htext
    obtain ⟨hhead, htail⟩ := List.append_inj htext hlength
    exact ⟨hhead, (List.append_cancel_left htail).symm⟩

/-- What stripping leaves: the authority behind a scheme in lower case, and otherwise the whole
    text. -/
theorem stripped_text (u : HttpUrl) :
    (((stripPrefix? u.text "http://").or (stripPrefix? u.text "https://")).getD u.text).toList
      = if u.lowerScheme then u.authority else u.text.toList := by
  have htext : u.text.toList = u.scheme ++ ("://".toList ++ u.authority) := String.toList_ofList
  have hauthority : (String.ofList u.authority).toList = u.authority := String.toList_ofList
  cases hhttp : stripPrefix? u.text "http://" with
  | some rest =>
    obtain ⟨hscheme, hrest⟩ := strip_http u hhttp
    have hlower : u.lowerScheme := Or.inl hscheme
    rw [if_pos hlower]
    exact hrest
  | none =>
    cases hhttps : stripPrefix? u.text "https://" with
    | some rest =>
      obtain ⟨hscheme, hrest⟩ := strip_https u hhttps
      have hlower : u.lowerScheme := Or.inr hscheme
      rw [if_pos hlower]
      exact hrest
    | none =>
      rw [if_neg]
      · rfl
      · rintro (hscheme | hscheme)
        · have hstrip : stripPrefix? u.text "http://" = some (String.ofList u.authority) :=
            stripPrefix?_eq_some.mpr (by
              rw [htext, hscheme, hauthority, http_split.1, List.append_assoc])
          rw [hhttp] at hstrip
          cases hstrip
        · have hstrip : stripPrefix? u.text "https://" = some (String.ofList u.authority) :=
            stripPrefix?_eq_some.mpr (by
              rw [htext, hscheme, hauthority, https_split.1, List.append_assoc])
          rw [hhttps] at hstrip
          cases hstrip

/-- Before the first delimiter of a userinfo: its colon if it has one, else what comes after it. -/
theorem takeWhile_userinfo {info : List Char} (hchars : ∀ c ∈ info, isUserinfo c = true)
    (rest : List Char) :
    (info ++ rest).takeWhile (fun c => !isHostEnd c)
      = if ':' ∈ info then info.takeWhile (· != ':')
        else info ++ rest.takeWhile fun c => !isHostEnd c := by
  induction info with
  | nil => simp
  | cons c info ih =>
    have hc := hchars c List.mem_cons_self
    have hrest := ih fun d hd => hchars d (List.mem_cons_of_mem _ hd)
    by_cases hcolon : c = ':'
    · subst hcolon
      simp [isHostEnd]
    · have hname : isRegName c = true := by simpa [isUserinfo, hcolon] using hc
      have hend := (hostEnd_of_regName hname).1
      have hmem : ':' ∈ c :: info ↔ ':' ∈ info := by simp [Ne.symm hcolon]
      rw [List.cons_append, List.takeWhile_cons_of_pos (by simp [hend]), hrest]
      simp only [hmem]
      split
      · rw [List.takeWhile_cons_of_pos (by simpa using hcolon)]
      · rfl

/-- The delimiters end the piece: in front of them is what `url_host` takes for a host. -/
theorem piece_text (u : HttpUrl) :
    (if u.lowerScheme then u.authority else u.text.toList).takeWhile (fun c => !isHostEnd c)
      = u.hostPiece := by
  have hhost : ∀ c ∈ u.host, isHostEnd c = false :=
    fun c hc => (hostEnd_of_regName (u.host_chars c hc)).1
  unfold HttpUrl.hostPiece
  by_cases hlower : u.lowerScheme
  · rw [if_pos hlower, if_pos hlower, HttpUrl.authority]
    cases hinfo : u.userinfo with
    | none => exact takeWhile_hostEnd hhost u.afterHost_head
    | some info =>
      have hchars := u.userinfo_chars info hinfo
      show ((info ++ ['@']) ++ (u.host ++ u.afterHost)).takeWhile _ = _
      rw [List.append_assoc, takeWhile_userinfo hchars]
      have hat : (['@'] ++ (u.host ++ u.afterHost)).takeWhile (fun c => !isHostEnd c)
          = '@' :: u.host := by
        rw [← List.append_assoc]
        refine takeWhile_hostEnd (fun c hc => ?_) u.afterHost_head
        rcases List.mem_cons.mp hc with rfl | hc
        · rfl
        · exact hhost c hc
      rw [hat]
  · rw [if_neg hlower, if_neg hlower, HttpUrl.text, String.toList_ofList]
    refine takeWhile_hostEnd (fun c hc => (hostEnd_of_scheme u hc).1) fun c hc => ?_
    obtain rfl : ':' = c := Option.some.inj hc
    rfl

/-- The piece is ASCII. -/
theorem ascii_hostPiece (u : HttpUrl) : ∀ c ∈ u.hostPiece, c.toNat < 128 := by
  have hhost : ∀ c ∈ u.host, c.toNat < 128 :=
    fun c hc => (hostEnd_of_regName (u.host_chars c hc)).2
  intro c hc
  unfold HttpUrl.hostPiece at hc
  split at hc
  · cases hinfo : u.userinfo with
    | none =>
      rw [hinfo] at hc
      exact hhost c hc
    | some info =>
      have huser : ∀ d ∈ info, d.toNat < 128 := by
        intro d hd
        rcases Bool.or_eq_true_iff.mp (u.userinfo_chars info hinfo d hd) with hname | hcolon
        · exact (hostEnd_of_regName hname).2
        · rw [beq_iff_eq.mp hcolon]
          decide
      rw [hinfo] at hc
      dsimp only at hc
      split at hc
      · exact huser c (List.takeWhile_subset _ hc)
      · rcases List.mem_append.mp hc with hc | hc
        · exact huser c hc
        · rcases List.mem_cons.mp hc with rfl | hc
          · decide
          · exact hhost c hc
  · exact (hostEnd_of_scheme u hc).2

section
variable [TextTables]

/-- **What `url_host` returns**: the piece before the first delimiter, in lower case. -/
theorem urlHost_text (u : HttpUrl) :
    urlHost u.text = String.ofList (u.hostPiece.map Char.toLower) := by
  have hpiece : firstPiece isHostEnd
      (((stripPrefix? u.text "http://").or (stripPrefix? u.text "https://")).getD u.text)
      = String.ofList u.hostPiece := by
    unfold firstPiece
    rw [stripped_text, piece_text]
  show TextTables.toLowercase (firstPiece isHostEnd _) = _
  rw [hpiece, TextTables.toLowercase_ascii _ (by simpa using ascii_hostPiece u),
    String.toList_ofList]

/-! ### The exclusion test -/

/-- **On a host in lower case the exclusion test is right.** -/
theorem domainExcluded_lower (u : HttpUrl) (processes domains : List String) :
    (Exclusions.new processes domains).domainExcluded u.lowerHost = true ↔
      ∃ d ∈ domains, Within u.lowerHost (TextTables.toLowercase d) := by
  have hascii : ∀ c ∈ u.lowerHost.toList, c.toNat < 128 ∧ c.toLower = c := by
    intro c hc
    rw [HttpUrl.lowerHost, String.toList_ofList] at hc
    obtain ⟨d, hd, rfl⟩ := List.mem_map.mp hc
    exact ⟨ascii_toLower.mpr (hostEnd_of_regName (u.host_chars d hd)).2, toLower_toLower d⟩
  have hfixed : TextTables.toLowercase u.lowerHost = u.lowerHost := by
    rw [TextTables.toLowercase_ascii _ fun c hc => (hascii c hc).1]
    apply String.toList_inj.mp
    rw [String.toList_ofList]
    exact (List.map_congr_left fun c hc => (hascii c hc).2).trans (List.map_id _)
  unfold Exclusions.domainExcluded Exclusions.new
  dsimp only
  rw [hfixed]
  simp [Within, endsWith_iff]

/-- `url_host` returns the host, and the exclusion test on it is right for every list. -/
def HostMatched (u : HttpUrl) (processes domains : List String) : Prop :=
  urlHost u.text = u.lowerHost ∧
    ((Exclusions.new processes domains).domainExcluded (urlHost u.text) = true ↔
      ∃ d ∈ domains, Within u.lowerHost (TextTables.toLowercase d))

/-- Nothing is in the way of the host, or what is spells it: a user name, or a scheme that is not
    in lower case. -/
def Recognised (u : HttpUrl) : Prop :=
  if u.lowerScheme then
    ∀ info ∈ u.userinfo, ':' ∈ info ∧
      (info.takeWhile (· != ':')).map Char.toLower = u.host.map Char.toLower
  else u.scheme.map Char.toLower = u.host.map Char.toLower

/-- **Domain exclusion cannot be dodged exactly by the addresses with a scheme in lower case and no
    userinfo**, but for those whose user name, or whose scheme with a capital, spells the host. -/
theorem host_matched_iff (u : HttpUrl) (processes domains : List String) :
    HostMatched u processes domains ↔ Recognised u := by
  have hhost : urlHost u.text = u.lowerHost ↔
      u.hostPiece.map Char.toLower = u.host.map Char.toLower := by
    rw [urlHost_text, HttpUrl.lowerHost, String.ofList_inj]
  have hexclusion : urlHost u.text = u.lowerHost →
      ((Exclusions.new processes domains).domainExcluded (urlHost u.text) = true ↔
        ∃ d ∈ domains, Within u.lowerHost (TextTables.toLowercase d)) := by
    intro h
    rw [h]
    exact domainExcluded_lower u processes domains
  rw [HostMatched, and_iff_left_of_imp hexclusion, hhost, HttpUrl.hostPiece, Recognised]
  split
  · cases hinfo : u.userinfo with
    | none => simp
    | some info =>
      by_cases hcolon : ':' ∈ info
      · simp [hcolon]
      · -- a user name without a password stays in front of the host
        refine iff_of_false (fun h => ?_) fun h => hcolon (h info rfl).1
        have hlength := congrArg List.length h
        simp [hcolon] at hlength
        omega
  · rfl

end

section

attribute [local instance] TextTables.ascii

/-- An address with a user name and a password: `http://user:pw@bank.example/`. -/
def dodgingUrl : HttpUrl where
  scheme := "http".toList
  userinfo := some "user:pw".toList
  host := "bank.example".toList
  port := none
  path := ['/']
  query := none
  fragment := none
  scheme_http := by decide
  userinfo_chars := by
    rintro _ ⟨⟩
    exact List.all_eq_true.mp (by decide)
  host_chars := List.all_eq_true.mp (by decide)
  port_chars := by simp
  path_chars := List.all_eq_true.mp (by decide)
  path_absolute := by simp
  query_chars := by simp
  fragment_chars := by simp

/-- **A user name dodges the exclusion.**  `url_host` returns it in place of the excluded host. -/
theorem exclusion_dodged :
    ¬ ∀ (u : HttpUrl) (processes domains : List String), HostMatched u processes domains := by
  intro h
  have hhost := (h dodgingUrl [] ["bank.example"]).1
  exact absurd hhost (by decide +kernel)

end

end Precall.Client
