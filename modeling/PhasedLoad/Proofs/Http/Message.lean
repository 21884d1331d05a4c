import PhasedLoad.Proofs.Group.Stay
import PhasedLoad.Proofs.Http.Headers
import PhasedLoad.Target.Http

/-! What goes out to a destination: a message with the headers that the caller gave, and with those
that go without saying. If none can be made, nothing goes out, and no worker tries twice. -/

namespace PhasedLoad

namespace Http

open Text

namespace Url

variable {naming : Naming} {scheme authority : List Char} {ended : Bool} {url : Url}

theorem exists_host_of_ofAuthority? {usual : Nat}
    (h : ofAuthority? naming scheme (some usual) authority ended = some url) :
    ∃ host, url.host = some host := by
  unfold ofAuthority? at h
  dsimp only at h
  split at h
  · cases h
  · split at h
    -- The host is read alike with a port and without.
    all_goals
      obtain ⟨port, -, h⟩ := Option.bind_eq_some_iff.mp h
      split at h
      · cases h
      · obtain ⟨host, -, h⟩ := Option.bind_eq_some_iff.mp h
        cases h
        exact ⟨host, rfl⟩

theorem scheme_of_ofAuthority? (h : ofAuthority? naming scheme none authority ended = some url) :
    url.scheme = scheme := by
  unfold ofAuthority? at h
  dsimp only at h
  split at h
  · cases h
  · split at h
    all_goals
      obtain ⟨port, -, h⟩ := Option.bind_eq_some_iff.mp h
      split at h
      · split at h
        · cases h
          rfl
        · cases h
      · obtain ⟨host, -, h⟩ := Option.bind_eq_some_iff.mp h
        cases h
        rfl

theorem exists_host_of_isHttp {text : String} (h : ofText? naming text = some url)
    (hhttp : url.isHttp = true) : ∃ host, url.host = some host := by
  unfold ofText? at h
  obtain ⟨⟨scheme, rest⟩, -, h⟩ := Option.bind_eq_some_iff.mp h
  have hkind : url.scheme = scheme → Kind.ofScheme scheme = .network 80 := by
    rintro rfl
    rw [of_decide_eq_true hhttp]
    rfl
  dsimp only at h
  split at h
  · exact exists_host_of_ofAuthority? h
  · next hfile =>
    have hscheme : url.scheme = scheme := by
      split at h
      · split at h
        · obtain ⟨host, -, h⟩ := Option.bind_eq_some_iff.mp h
          cases h
          rfl
        · cases h
          rfl
      · cases h
        rfl
    rw [hkind hscheme] at hfile
    cases hfile
  · next hother =>
    have hscheme : url.scheme = scheme := by
      split at h
      · exact scheme_of_ofAuthority? h
      · cases h
        rfl
    rw [hkind hscheme] at hother
    cases hother

end Url

def Host.field (host : Host) (port : Nat) : String :=
  String.ofList (host.chars ++ if port = 80 then [] else ':' :: decimal port)

theorem Url.hostField_eq {url : Url} {host : Host} (h : url.host = some host) :
    url.hostField = some (host.field (url.port.getD 80)) := by
  rw [Url.hostField, h, Host.field]
  cases url.port <;> rfl

theorem Uri.isAbsolute_of_ofText? {text : String} {uri : Uri}
    (hscheme : (afterScheme? text.toList).isSome = true) (h : ofText? text = some uri) :
    uri.isAbsolute = true := by
  obtain ⟨cs, hcs⟩ := Option.isSome_iff_exists.mp hscheme
  unfold ofText? at h
  rw [hcs] at h
  dsimp only at h
  split at h
  · cases h
  · split at h
    · cases h
    · obtain ⟨target, -, rfl⟩ := Option.map_eq_some_iff.mp h
      rfl

/-! What goes without saying. -/

/-- The headers of a message of JSON whose caller gives none. -/
def Headers.standard (field body : String) : Headers :=
  ("host", field) ::
    ((if body = "" then [] else [("content-length", toString body.utf8ByteSize)]) ++
      [("Content-Type", "application/json")])

section Standard

variable (field body : String)

theorem Headers.distinct_standard : (standard field body).Distinct := by
  unfold standard Distinct
  split <;> simp <;> decide

theorem Headers.host_standard : (standard field body).named "host" = [field] := by
  unfold standard
  split <;> simp +decide [named]

theorem Headers.contentType_standard :
    (standard field body).named "content-type" = ["application/json"] := by
  unfold standard
  split <;> simp +decide [named]

theorem Headers.contentLength_standard : (standard field body).named "content-length" =
    if body = "" then [] else [toString body.utf8ByteSize] := by
  unfold standard
  split <;> simp +decide [named]

end Standard

namespace Message

/-- How the headers of a message of JSON come from those that the caller gives. -/
structure Heads (m : Message) (given : Headers) : Prop where
  /-- Names differ by more than the case of their letters. -/
  distinct : m.headers.Distinct
  /-- Each name that is given has its last value, -/
  last : ∀ name value, given.last? name = some value → m.headers.named name = [value]
  /-- and they stand in the order in which they were last given. -/
  ordered : m.headers.filter (fun h => given.has h.1) = given.lasting.map Headers.lowered
  host : m.headers.named "host" = [(given.last? "host").getD (m.host.field m.port)]
  contentType :
    m.headers.named "content-type" = [(given.last? "content-type").getD "application/json"]
  contentLength : m.headers.named "content-length" = match given.last? "content-length" with
    | some length => [length]
    | none => if m.body = "" then [] else [toString m.body.utf8ByteSize]

theorem heads_of_headers_eq {m : Message} {given : Headers}
    (h : m.headers =
      ((Headers.standard (m.host.field m.port) m.body).setAll given).map Headers.lowered) :
    m.Heads given := by
  have hnamed : ∀ name, m.headers.named name = ((given.last? name).map fun v => [v]).getD
      ((Headers.standard (m.host.field m.port) m.body).named name) := by
    intro name
    rw [h, Headers.named_map_lowered, Headers.named_setAll]
  refine ⟨?distinct, ?last, ?ordered, ?host, ?contentType, ?contentLength⟩
  case distinct =>
    rw [h]
    exact ((Headers.distinct_standard _ _).setAll given).map_lowered
  case last =>
    intro name value hlast
    rw [hnamed, hlast]
    rfl
  case ordered => rw [h, Headers.filter_map_lowered, Headers.filter_setAll]
  case host =>
    rw [hnamed, Headers.host_standard]
    cases given.last? "host" <;> rfl
  case contentType =>
    rw [hnamed, Headers.contentType_standard]
    cases given.last? "content-type" <;> rfl
  case contentLength =>
    rw [hnamed, Headers.contentLength_standard]
    cases given.last? "content-length" <;> rfl

end Message

end Http

namespace Destination

open Http Text

variable {naming : Naming} {d : Destination} {call : Call}

/-- Messages can go there: the address is one in both readings, and names and values may stand in a
message. A value that a later one of its name replaces does not matter. -/
structure Sound (naming : Naming) (d : Destination) : Prop where
  url : ∃ url, Url.ofText? naming d.url = some url ∧ url.isHttp = true
  uri : (Uri.ofText? d.url).isSome = true
  names : ∀ h ∈ d.headers, (headerName? h.1).isSome = true
  values : ∀ h ∈ d.headers.lasting, isHeaderValue h.2 = true

theorem afterScheme?_url (d : Destination) : (Uri.afterScheme? d.url.toList).isSome = true := by
  have hurl : d.url.toList =
      "http://".toList ++ (d.host ++ ":" ++ toString d.port ++ "/").toList := by
    simp [url, String.append_assoc]
  rw [hurl, Uri.afterScheme?, if_pos]
  · rfl
  · rfl

theorem request_headers (d : Destination) (call : Call) : (d.request call).headers =
    Headers.setAll [("Content-Type", "application/json")] d.headers := rfl

theorem sound_headers_iff (d : Destination) (call : Call) :
    (∀ h ∈ (d.request call).headers, Headers.Sound h) ↔
    (∀ h ∈ d.headers, (headerName? h.1).isSome = true) ∧
      ∀ h ∈ d.headers.lasting, isHeaderValue h.2 = true := by
  rw [request_headers, Headers.setAll_eq]
  constructor
  · intro hall
    have hlasting : ∀ h ∈ d.headers.lasting, Headers.Sound h :=
      fun h hh => hall h (List.mem_append_right _ hh)
    exact ⟨Headers.names_of_lasting fun h hh => (hlasting h hh).1, fun h hh => (hlasting h hh).2⟩
  · rintro ⟨hnames, hvalues⟩ h hh
    rcases List.mem_append.mp hh with hh | hh
    · obtain rfl := List.mem_singleton.mp (List.mem_filter.mp hh).1
      exact ⟨by decide +kernel, by decide +kernel⟩
    · exact ⟨hnames h (d.headers.lasting_sublist.subset hh), hvalues h hh⟩

theorem impliedHeaders_append (field : String) :
    (d.request call).impliedHeaders (some field) ++ (d.request call).headers.map Headers.lowered =
      ((Headers.standard field call.body).setAll d.headers).map Headers.lowered := by
  have hhas : ∀ name, sameLetters "Content-Type" name = false →
      (d.request call).headers.has name = d.headers.has name := by
    intro name hname
    rw [request_headers, Headers.has_setAll, Headers.has_cons, hname]
    rfl
  have hlowered : ∀ value, Headers.lowered ("host", value) = ("host", value) ∧
      Headers.lowered ("content-length", value) = ("content-length", value) := fun value =>
    ⟨Headers.lowered_of_lower (by decide) value, Headers.lowered_of_lower (by decide) value⟩
  have hbody : (d.request call).body = call.body := rfl
  rw [Request.impliedHeaders, hhas "host" (by decide), hhas "content-length" (by decide), hbody,
    request_headers, Headers.setAll_eq, Headers.setAll_eq, Headers.standard]
  by_cases hhost : d.headers.has "host" <;> by_cases hlength : d.headers.has "content-length" <;>
    by_cases hempty : call.body = "" <;> simp [hhost, hempty, hlength, hlowered]

theorem Sound.message (hsound : d.Sound naming) (call : Call) : ∃ url m,
    Url.ofText? naming d.url = some url ∧ (d.request call).message naming = .ok m ∧
      url.host = some m.host ∧ m.port = url.port.getD 80 ∧ m.body = call.body ∧ m.headers =
        ((Headers.standard (m.host.field m.port) m.body).setAll d.headers).map Headers.lowered := by
  obtain ⟨⟨url, hurl, hhttp⟩, hisuri, hnames, hvalues⟩ := hsound
  obtain ⟨uri, huri⟩ := Option.isSome_iff_exists.mp hisuri
  obtain ⟨host, hhost⟩ := url.exists_host_of_isHttp hurl hhttp
  have hchecked := checkHeaders_of_sound ((d.sound_headers_iff call).mpr ⟨hnames, hvalues⟩)
  have habsolute := Uri.isAbsolute_of_ofText? d.afterScheme?_url huri
  refine ⟨url, ⟨host, url.port.getD 80, "POST", uri.target, _, call.body⟩, hurl, ?_, hhost, rfl,
    rfl, impliedHeaders_append (host.field (url.port.getD 80))⟩
  unfold Request.message
  rw [show (d.request call).url = d.url from rfl, hurl, huri, hchecked, ← Url.hostField_eq hhost]
  simp only [hhttp, habsolute, Url.destination?, hhost]
  rfl

theorem exists_fault (hunsound : ¬ d.Sound naming) (call : Call) :
    ∃ f, (d.request call).message naming = .error f ∧ f.isConstruction = true := by
  unfold Request.message
  rw [show (d.request call).url = d.url from rfl]
  cases hurl : Url.ofText? naming d.url with
  | none => exact ⟨.invalidUrl d.url, rfl, rfl⟩
  | some url =>
    cases hhttp : url.isHttp with
    | false =>
      simp only [hhttp]
      exact ⟨.otherScheme d.url, rfl, rfl⟩
    | true =>
      simp only [hhttp]
      cases huri : Uri.ofText? d.url with
      | none => exact ⟨.invalidUrl d.url, rfl, rfl⟩
      | some uri =>
        have hheaders : ¬ ∀ h ∈ (d.request call).headers, Headers.Sound h := by
          intro hall
          obtain ⟨hnames, hvalues⟩ := (d.sound_headers_iff call).mp hall
          exact hunsound ⟨⟨url, hurl, hhttp⟩, by rw [huri]; rfl, hnames, hvalues⟩
        rcases checkHeaders_of_unsound hheaders with hfault | hfault
        · rw [hfault]
          exact ⟨.headerName, rfl, rfl⟩
        · rw [hfault]
          exact ⟨.headerValue, rfl, rfl⟩

end Destination

namespace Target

theorem failing_within (f : TargetFault) (timeout : Option Duration) :
    (failing f).within timeout = failing f := by
  cases timeout with
  | none => rfl
  | some d =>
    have hlater : ¬ d < Duration.zero := Nat.not_lt_zero d.nanos
    simp only [Reply.within, failing, hlater, if_false]

/-- A call of which no message can be made does not reach the listener. -/
theorem http_post {naming : Http.Naming} {d : Destination} {call : Call} {f : Http.Fault}
    (h : (d.request call).message naming = .error f) (listener : Option Listener) :
    (http naming d).post call listener = (failing f.toTarget, listener) := by
  simp only [http, patient, h, failing_within]

end Target

namespace Destination

open Http

/-- Every message to a destination has each name once, with the last value that the caller gave it;
if the caller gave none, it has a host, the type of its body and, if there is a body, its length. If
no message can be made, that is fatal for whoever calls, and nothing goes out. -/
theorem request_heads (naming : Naming) (d : Destination) (call : Call) :
    (∀ m, (d.request call).message naming = .ok m →
      (∃ url, Url.ofText? naming d.url = some url ∧ url.host = some m.host ∧
        m.port = url.port.getD 80) ∧
        m.body = call.body ∧ m.Heads d.headers) ∧
    (¬ d.Sound naming →
      (∃ f, f.isConstruction = true ∧ f.toTarget.isFatal = true ∧
        (∀ port conduct, (d.request call).exchange naming port conduct = ⟨none, some (.error f)⟩) ∧
        ∀ listener, (Target.http naming d).post call listener =
          (Target.failing f.toTarget, listener)) ∧
      ∀ (env : Environment (Option Listener)) (turns : Nat) (run : GroupRun)
        (outer : Option Instant) (w : World (Option Listener)) (stats : Statistics)
        (out : GroupOutcome (Option Listener)), env.target = Target.http naming d →
        run.perform env turns outer w stats = some out → ∀ number,
          (History.timeline (.worker run.name.group number) out.history).workCalls ≤ 1) := by
  refine ⟨fun m hm => ?_, fun hunsound => ⟨?_, ?_⟩⟩
  · have hsound : d.Sound naming := by
      by_contra hunsound
      obtain ⟨f, hf, -⟩ := exists_fault hunsound call
      rw [hm] at hf
      cases hf
    obtain ⟨url, m', hurl, hm', hhost, hport, hbody, hheaders⟩ := hsound.message call
    rw [hm] at hm'
    cases hm'
    exact ⟨⟨url, hurl, hhost, hport⟩, hbody, Message.heads_of_headers_eq hheaders⟩
  · obtain ⟨f, hf, hconstruction⟩ := exists_fault hunsound call
    refine ⟨f, hconstruction, ?_, fun port conduct => ?_, Target.http_post hf⟩
    · rw [Fault.toTarget_isFatal, hconstruction]
    · simp only [Request.exchange, hf]
  · intro env turns run outer w stats out htarget hrun number
    refine GroupRun.perform_calls_once hrun (fun listener => ?_) number
    obtain ⟨f, hf, hconstruction⟩ := exists_fault hunsound run.call
    rw [htarget, Target.http_post hf]
    exact (Fault.toTarget_isFatal f).trans hconstruction

/-- Names are given more than once, and in letters of either case; one value cannot go out. -/
def repeated : Destination :=
  ⟨"127.0.0.1", 8080, [("X-A", "a\x01"), ("HOST", "a"), ("host", "b"), ("x-a", "ok")]⟩

def repeatedMessage : Message :=
  ⟨Host.loopback, 8080, "POST", ['/'],
    [("content-length", "4"), ("content-type", "application/json"), ("host", "b"), ("x-a", "ok")],
    "ping"⟩

theorem repeated_message : (repeated.request ⟨"ping", none⟩).message .plain = .ok repeatedMessage := by
  decide +kernel

def misnamed : Destination := ⟨"127.0.0.1", 8080, [("X A", "1")]⟩

/-- The host says that it stands for other characters, and stands for none. -/
def misplaced : Destination := ⟨"xn--a", 8080, []⟩

theorem repeated_heads :
    (repeated.request ⟨"ping", none⟩).message .plain = .ok repeatedMessage ∧
      repeatedMessage.Heads repeated.headers ∧
    ¬ misplaced.Sound .plain ∧
      (∃ f, f.toTarget.isFatal = true ∧
        (misplaced.request ⟨"ping", none⟩).exchange .plain 8080 .stalls =
          ⟨none, some (.error f)⟩) ∧
    ¬ misnamed.Sound .plain ∧
      (∃ f, f.toTarget.isFatal = true ∧
        (misnamed.request ⟨"ping", none⟩).exchange .plain 8080 .stalls = ⟨none, some (.error f)⟩) ∧
      ∃ out, GroupRun.brief.perform (.orderly (Target.http .plain misnamed)) 20 none
          (.start none none) .empty = some out ∧
        (History.timeline (.worker 1 1) out.history).workCalls ≤ 1 := by
  have hnowhere : ¬ misplaced.Sound .plain := by
    rintro ⟨⟨url, hurl, -⟩, -⟩
    have hnone : (Url.ofText? .plain misplaced.url).isNone = true := by decide +kernel
    rw [hurl] at hnone
    cases hnone
  obtain ⟨g, -, hfatal', hexchange', -⟩ :=
    ((request_heads .plain misplaced ⟨"ping", none⟩).2 hnowhere).1
  have hunsound : ¬ misnamed.Sound .plain := fun hsound =>
    absurd (hsound.names ("X A", "1") (List.mem_singleton_self _)) (by decide +kernel)
  obtain ⟨⟨f, -, hfatal, hexchange, -⟩, honce⟩ :=
    (request_heads .plain misnamed ⟨"ping", none⟩).2 hunsound
  have hruns : (GroupRun.brief.perform (.orderly (Target.http .plain misnamed)) 20 none
      (.start none none) .empty).isSome = true := by
    decide +kernel
  obtain ⟨out, hperform⟩ := Option.isSome_iff_exists.mp hruns
  exact ⟨repeated_message, ((request_heads .plain repeated ⟨"ping", none⟩).1 _ repeated_message).2.2,
    hnowhere, ⟨g, hfatal', hexchange' 8080 .stalls⟩, hunsound,
    ⟨f, hfatal, hexchange 8080 .stalls⟩, out, hperform,
    honce _ _ GroupRun.brief none _ .empty out rfl hperform 1⟩

/-- A value that cannot go out does no harm if a later one replaces it. -/
theorem replaced_value_goes_unchecked :
    ¬ ∀ (naming : Naming) (d : Destination) (call : Call),
      (∃ h ∈ d.headers, isHeaderValue h.2 = false) →
      ∀ port conduct, ((d.request call).exchange naming port conduct).sent = none := by
  intro hclaim
  have hnothing := hclaim .plain repeated ⟨"ping", none⟩
    ⟨("X-A", "a\x01"), List.mem_cons_self, by decide⟩ 8080 .stalls
  rw [Request.exchange, repeated_message] at hnothing
  cases hnothing

end Destination

end PhasedLoad
