import Mathlib.Data.List.Induction
import MyHttp.Http.DoRequest
import MyHttp.Theorems.Http.Serializers

/-! The requests that the clients build: which host they name, and that a pool sends what a connection of its own would. -/

namespace MyHttp
namespace Http

open Lib.CString

variable {m : Headers} {key val : Bytes} {r : HttpRequest} {l : List (Bytes × Bytes)} {b : Bool}

/-! ### The header map -/

namespace Headers

/-- The order of the map. -/
def Sorted (m : Headers) : Prop := m.Pairwise fun x y => strcaseLess x.1 y.1 = true

/-- What holds of the key and of the keys before holds of the keys after. -/
theorem forall_set {P : Bytes → Prop} (hkey : P key) (hm : ∀ x ∈ m, P x.1) : ∀ x ∈ m.set key val, P x.1 := by
  induction m with
  | nil => exact List.forall_mem_singleton.mpr hkey
  | cons x m ih =>
    obtain ⟨k, v⟩ := x
    obtain ⟨hk, hm⟩ := List.forall_mem_cons.mp hm
    rw [set]
    split
    · exact List.forall_mem_cons.mpr ⟨hkey, List.forall_mem_cons.mpr ⟨hk, hm⟩⟩
    · split
      · exact List.forall_mem_cons.mpr ⟨hk, ih hm⟩
      · exact List.forall_mem_cons.mpr ⟨hk, hm⟩

theorem Sorted.set (h : Sorted m) (key val : Bytes) : Sorted (m.set key val) := by
  induction m with
  | nil => exact List.pairwise_singleton ..
  | cons x m ih =>
    obtain ⟨k, v⟩ := x
    obtain ⟨hk, hm⟩ := List.pairwise_cons.mp h
    rw [Headers.set]
    split
    · rename_i hbefore
      refine List.pairwise_cons.mpr ⟨List.forall_mem_cons.mpr ⟨hbefore, fun y hy => ?_⟩, h⟩
      exact strcaseLess_trans hbefore (hk y hy)
    · split
      · rename_i hafter
        exact List.pairwise_cons.mpr ⟨forall_set (P := fun n => strcaseLess k n = true) hafter hk, ih hm⟩
      · exact List.pairwise_cons.mpr ⟨hk, hm⟩

/-- There is one entry of a name at most. -/
theorem Sorted.filter_eq (h : Sorted m) (hget : m.get key = some val) :
    ∃ k, strcaseEquiv k key = true ∧ m.filter (fun x => strcaseEquiv x.1 key) = [(k, val)] := by
  induction m with
  | nil => cases hget
  | cons x m ih =>
    obtain ⟨hx, hm⟩ := List.pairwise_cons.mp h
    rw [get, List.find?_cons] at hget
    rw [List.filter_cons]
    cases hname : strcaseEquiv x.1 key with
    | false =>
      rw [hname] at hget
      exact ih hm hget
    | true =>
      rw [hname] at hget
      have hrest : m.filter (fun y => strcaseEquiv y.1 key) = [] := by
        refine List.filter_eq_nil_iff.mpr fun y hy hother => ?_
        have hsame := (strcaseEquiv_congr hname).trans (strcaseEquiv_comm.trans hother)
        rw [strcaseEquiv, hx y hy] at hsame
        cases hsame
      refine ⟨x.1, hname, ?_⟩
      rw [hrest, ← Option.some.inj hget]
      rfl

theorem get_isSome : (m.get key).isSome = true ↔ ∃ x ∈ m, strcaseEquiv x.1 key = true := by
  rw [get, Option.isSome_map, List.find?_isSome]

end Headers

/-! ### The headers of the caller -/

theorem strcaseEquiv_other {n : Bytes} (h : strcaseEquiv n key = true) (hkey : strcaseEquiv key (ascii "connection") = false) :
    strcaseEquiv n (ascii "connection") = false := (strcaseEquiv_congr h).trans hkey

variable {st : HttpRequest × Bool} {h : Bytes × Bytes}

theorem addHeader_headers : (addHeader st h).1.headers =
    if strcaseEquiv h.1 (ascii "connection") then st.1.headers else st.1.headers.set h.1 h.2 := by
  unfold addHeader
  dsimp only
  split
  · dsimp only
    split <;> rfl
  · rfl

theorem addHeader_hasHost :
    (addHeader st h).2 = (st.2 || strcaseEquiv h.1 (ascii "host") && decide (h.2 ≠ [])) := by
  unfold addHeader
  dsimp only
  split
  · rename_i hconnection
    have hhost : strcaseEquiv h.1 (ascii "host") = false := (strcaseEquiv_congr hconnection).trans (by decide)
    rw [hhost, Bool.false_and, Bool.or_false]
  · dsimp only
    cases st.2 <;> cases strcaseEquiv h.1 (ascii "host") <;> rfl

/-- The last header of a name is the one that counts. -/
theorem foldl_get (hkey : strcaseEquiv key (ascii "connection") = false) (l : List (Bytes × Bytes)) :
    (l.foldl addHeader (r, b)).1.headers.get key =
      ((l.filter fun h => strcaseEquiv h.1 key).getLast?.map (·.2)).or (r.headers.get key) := by
  induction l using List.reverseRecOn with
  | nil => rfl
  | append_singleton l h ih =>
    rw [List.foldl_append, List.foldl_cons, List.foldl_nil, addHeader_headers, List.filter_append, List.filter_cons]
    cases hname : strcaseEquiv h.1 key with
    | false =>
      have hlast : l.filter (fun h => strcaseEquiv h.1 key) ++ [] = l.filter fun h => strcaseEquiv h.1 key :=
        List.append_nil _
      simp only [Bool.false_eq_true, if_false, List.filter_nil, hlast]
      split
      · exact ih
      · rw [Headers.get_set, hname]
        exact ih
    | true =>
      have hkept := strcaseEquiv_other hname hkey
      simp only [if_true, List.filter_nil, List.getLast?_concat, Option.map_some, Option.some_or, hkept, Bool.false_eq_true,
        if_false, Headers.get_set, hname]

/-- There is a host when one of the hosts is not empty. -/
theorem foldl_hasHost (l : List (Bytes × Bytes)) :
    (l.foldl addHeader (r, false)).2 = l.any fun h => strcaseEquiv h.1 (ascii "host") && decide (h.2 ≠ []) := by
  induction l using List.reverseRecOn with
  | nil => rfl
  | append_singleton l h ih =>
    rw [List.foldl_append, List.foldl_cons, List.foldl_nil, addHeader_hasHost, ih, List.any_append, List.any_cons, List.any_nil,
      Bool.or_false]

/-- What every assignment keeps holds of the map behind the headers. -/
theorem foldl_headers {P : Headers → Prop} (hr : P r.headers) (hl : ∀ h ∈ l, ∀ m, P m → P (m.set h.1 h.2)) :
    P (l.foldl addHeader (r, b)).1.headers := by
  refine List.foldlRecOn (motive := fun st : HttpRequest × Bool => P st.1.headers) l addHeader hr fun st hm h hh => ?_
  rw [addHeader_headers]
  split
  · exact hm
  · exact hl h hh _ hm

/-! ### Host lines -/

/-- Exactly one header line that `dump` writes is a `Host` line, and it has a value. -/
def NamesHost (r : HttpRequest) : Prop :=
  ∃ name value, named "host" r.headerLines = [name ++ 58 :: value] ∧ (name, value) ∈ r.headers ∧ value ≠ []

/-- The hosts that the caller gives, in the order of the map. -/
def GivenHeaders.hosts (headers : GivenHeaders) : List (Bytes × Bytes) :=
  headers.entries.filter fun h => strcaseEquiv h.1 (ascii "host")

/-- A name that is a host up to a colon is a host. -/
def Uncut (n : Bytes) : Prop := strcaseEquiv (fieldName n) (ascii "host") = true → strcaseEquiv n (ascii "host") = true

/-- No name is cut to a host by a colon, and the last of the hosts is not empty, if any is not. -/
structure HostGiven (headers : GivenHeaders) : Prop where
  uncut : ∀ h ∈ headers.entries, Uncut h.1
  last : (∀ h ∈ headers.hosts, h.2 = []) ∨ ∃ h, headers.hosts.getLast? = some h ∧ h.2 ≠ []

theorem not_connection {n : Bytes} (h : strcaseEquiv (fieldName n) (ascii "host") = true) :
    strcaseEquiv n (ascii "connection") = false := by
  cases hconnection : strcaseEquiv n (ascii "connection") with
  | false => rfl
  | true =>
    rw [strcaseEquiv_congr (fieldName_connection hconnection)] at h
    exact absurd h (by decide)

/-- The host lines are those of the entries with a host before the colon. -/
theorem named_host (r : HttpRequest) : named "host" r.headerLines =
    (r.headers.filter fun h => strcaseEquiv (fieldName h.1) (ascii "host")).map fun h => h.1 ++ 58 :: h.2 := by
  have hfirst : strcaseEquiv (fieldName (connectionLine r.close)) (ascii "host") = false := by
    cases r.close <;> decide
  have hkept : ∀ x ∈ r.headers,
      (strcaseEquiv (fieldName x.1) (ascii "host") && !strcaseEquiv x.1 (ascii "connection")) =
        strcaseEquiv (fieldName x.1) (ascii "host") := by
    intro x _
    cases hfield : strcaseEquiv (fieldName x.1) (ascii "host") with
    | false => rfl
    | true => rw [not_connection hfield, Bool.not_false, Bool.and_true]
  rw [headerLines_eq, named, List.filter_cons, hfirst, if_neg Bool.false_ne_true, mapLines, List.filter_map, List.filter_filter,
    ← List.filter_congr hkept]
  exact congrArg (List.map _) (List.filter_congr fun x _ => congrArg (· && _) (by rw [Function.comp_apply, fieldName_colon]))

/-- With an entry for the host, there is one host line unless another name has a colon behind it. -/
theorem namesHost_iff_get (h : r.headers.Sorted) (hget : r.headers.get (ascii "host") = some val) :
    NamesHost r ↔ (∀ x ∈ r.headers, Uncut x.1) ∧ val ≠ [] := by
  obtain ⟨k, hk, hone⟩ := h.filter_eq hget
  have hmem : (k, val) ∈ r.headers := List.mem_of_mem_filter (hone ▸ List.mem_singleton_self _)
  unfold NamesHost
  rw [named_host]
  constructor
  · rintro ⟨name, value, hlines, hentry, hvalue⟩
    obtain ⟨x, hx, hline⟩ := List.map_eq_singleton_iff.mp hlines
    have honly : ∀ y ∈ r.headers, strcaseEquiv (fieldName y.1) (ascii "host") = true → y = x := fun y hy hfield =>
      List.mem_singleton.mp (hx ▸ List.mem_filter.mpr ⟨hy, hfield⟩)
    have hhost : (k, val) = x := honly _ hmem (fieldName_congr hk)
    have hfield : strcaseEquiv (fieldName name) (ascii "host") = true := by
      rw [← fieldName_colon name value, ← hline, fieldName_colon, ← hhost]
      exact fieldName_congr hk
    obtain rfl : value = val := (Prod.mk.inj ((honly _ hentry hfield).trans hhost.symm)).2
    refine ⟨fun y hy hfield => ?_, hvalue⟩
    rw [honly y hy hfield, ← hhost]
    exact hk
  · rintro ⟨huncut, hvalue⟩
    have hsame : ∀ x ∈ r.headers, strcaseEquiv (fieldName x.1) (ascii "host") = strcaseEquiv x.1 (ascii "host") :=
      fun x hx => Bool.eq_iff_iff.mpr ⟨huncut x hx, fieldName_congr⟩
    refine ⟨k, val, ?_, hmem, hvalue⟩
    rw [List.filter_congr hsame, hone]
    rfl

variable {headers : GivenHeaders} {host body : Bytes}

theorem complete_headers (req : HttpRequest) : (complete req headers host body).headers =
    if headers.entries.any fun h => strcaseEquiv h.1 (ascii "host") && decide (h.2 ≠ []) then
      (headers.entries.foldl addHeader (req, false)).1.headers
    else (headers.entries.foldl addHeader (req, false)).1.headers.set (ascii "Host") host := by
  rw [complete, ← foldl_hasHost (r := req)]
  dsimp only
  split <;> rfl

/-- What every assignment keeps holds of the map of the whole request. -/
theorem complete_keeps {P : Headers → Prop} {req : HttpRequest} (hreq : P req.headers)
    (hset : ∀ h ∈ headers.entries, ∀ m, P m → P (m.set h.1 h.2)) (hhost : ∀ m, P m → P (m.set (ascii "Host") host)) :
    P (complete req headers host body).headers := by
  have hm := foldl_headers (b := false) hreq hset
  rw [complete_headers]
  split
  · exact hm
  · exact hhost _ hm

theorem hosts_any : (headers.entries.any fun h => strcaseEquiv h.1 (ascii "host") && decide (h.2 ≠ [])) = true ↔
    ∃ h ∈ headers.hosts, h.2 ≠ [] := by
  simp only [List.any_eq_true, Bool.and_eq_true, decide_eq_true_eq, GivenHeaders.hosts, List.mem_filter, and_assoc]

/-- The request has the last host of the caller, or the host of the client, where all of these are empty. -/
theorem complete_host (headers : GivenHeaders) (body : Bytes) {req : HttpRequest} (hreq : req.headers = []) (hhost : host ≠ []) :
    ∃ val, (complete req headers host body).headers.get (ascii "host") = some val ∧
      (val ≠ [] ↔ (∀ h ∈ headers.hosts, h.2 = []) ∨ ∃ h, headers.hosts.getLast? = some h ∧ h.2 ≠ []) := by
  rw [complete_headers]
  split
  · rename_i hany
    obtain ⟨g, hg, hvalue⟩ := hosts_any.mp hany
    obtain ⟨last, hlast⟩ := Option.isSome_iff_exists.mp (List.getLast?_isSome.mpr (List.ne_nil_of_mem hg))
    refine ⟨last.2, ?_, ?_⟩
    · rw [foldl_get (by decide), hreq]
      exact congrArg (fun o => (Option.map Prod.snd o).or none) hlast
    · rw [hlast]
      exact ⟨fun h => .inr ⟨last, rfl, h⟩, fun h => h.elim (fun hall => absurd (hall g hg) hvalue)
        fun ⟨_, heq, h⟩ => Option.some.inj heq ▸ h⟩
  · rename_i hnone
    refine ⟨host, ?_, iff_of_true hhost (.inl fun h hh => ?_)⟩
    · rw [Headers.get_set]
      exact if_pos (by decide)
    · exact by_contra fun hvalue => hnone (hosts_any.mpr ⟨h, hh, hvalue⟩)

/-- A name that the caller gives is in the request. -/
theorem complete_name {req : HttpRequest} {h : Bytes × Bytes} (hh : h ∈ headers.entries)
    (hkept : strcaseEquiv h.1 (ascii "connection") = false) :
    ∃ x ∈ (complete req headers host body).headers, strcaseEquiv x.1 h.1 = true := by
  have hself : strcaseEquiv h.1 h.1 = true := strcaseEquiv_iff.mpr rfl
  have hmem : h ∈ headers.entries.filter fun g => strcaseEquiv g.1 h.1 := List.mem_filter.mpr ⟨hh, hself⟩
  obtain ⟨last, hlast⟩ := Option.isSome_iff_exists.mp (List.getLast?_isSome.mpr (List.ne_nil_of_mem hmem))
  have hget : (headers.entries.foldl addHeader (req, false)).1.headers.get h.1 = some last.2 := by
    rw [foldl_get hkept, hlast]
    rfl
  refine Headers.get_isSome.mp ?_
  rw [complete_headers]
  split
  · exact Option.isSome_iff_exists.mpr ⟨_, hget⟩
  · rw [Headers.get_set]
    split
    · rfl
    · exact Option.isSome_iff_exists.mpr ⟨_, hget⟩

theorem namesHost_complete_iff {req : HttpRequest} (hreq : req.headers = []) (hhost : host ≠ []) :
    NamesHost (complete req headers host body) ↔ HostGiven headers := by
  have hsorted : (complete req headers host body).headers.Sorted :=
    complete_keeps (P := Headers.Sorted) (hreq ▸ List.Pairwise.nil) (fun h _ m hm => hm.set h.1 h.2) fun m hm => hm.set _ _
  obtain ⟨val, hget, hval⟩ := complete_host headers body hreq hhost
  rw [namesHost_iff_get hsorted hget, hval]
  constructor
  · rintro ⟨huncut, hlast⟩
    refine ⟨fun h hh hfield => ?_, hlast⟩
    obtain ⟨x, hx, hname⟩ : ∃ x ∈ (complete req headers host body).headers, strcaseEquiv x.1 h.1 = true :=
      complete_name hh (not_connection hfield)
    have hhost := huncut x hx ((strcaseEquiv_congr (fieldName_congr hname)).trans hfield)
    rwa [strcaseEquiv_congr hname] at hhost
  · rintro ⟨huncut, hlast⟩
    refine ⟨?_, hlast⟩
    refine complete_keeps (P := fun m => ∀ x ∈ m, Uncut x.1) (hreq ▸ fun x hx => nomatch hx) (fun h hh m hm => ?_) fun m hm => ?_
    · exact Headers.forall_set (P := Uncut) (huncut h hh) hm
    · exact Headers.forall_set (P := Uncut) (fun _ => by decide) hm

/-- The requests name their host exactly when the last host that the caller gives is not empty, if any is not, and no other
    name has a colon behind a host. -/
theorem namesHost_iff (method : HttpMethod) (uri : Uri) (pool : PoolHosts) (url : Bytes) (headers : GivenHeaders) (body : Bytes)
    (huri : uri.host ≠ []) (hpool : pool.host ≠ []) :
    (NamesHost (HttpConnection.doRequest method uri headers body) ↔ HostGiven headers) ∧
      (NamesHost (pool.doRequest method url headers body) ↔ HostGiven headers) ∧
      (NamesHost (pool.doRequestUri method uri headers body) ↔ HostGiven headers) := by
  have hhost : (if pool.vhost = [] then pool.host else pool.vhost) ≠ [] := by
    split
    · exact hpool
    · assumption
  exact ⟨namesHost_complete_iff rfl huri, namesHost_complete_iff rfl hhost, namesHost_complete_iff rfl hhost⟩

/-- `http://www.sylar.top`. -/
def sylarUri : Uri := { Uri.new with scheme := ascii "http", host := ascii "www.sylar.top" }

/-- A host in capitals, and behind it one in small letters without a value. -/
def twoHosts : GivenHeaders := ⟨[(ascii "HOST", ascii "a"), (ascii "host", [])], by decide⟩

theorem namesHost_iff_none : NamesHost (HttpConnection.doRequest .get sylarUri ⟨[], .nil⟩ []) :=
  (namesHost_iff .get sylarUri ⟨ascii "www.sylar.top", []⟩ (ascii "/") ⟨[], .nil⟩ [] (by decide) (by decide)).1.mpr
    ⟨fun h hh => (nomatch hh), .inl fun h hh => (nomatch hh)⟩

theorem host_overwritten : ¬∀ (uri : Uri) (headers : GivenHeaders), uri.host ≠ [] →
    NamesHost (HttpConnection.doRequest .get uri headers []) := by
  intro h
  obtain ⟨-, hlast⟩ := (namesHost_complete_iff rfl (by decide)).mp (h sylarUri twoHosts (by decide))
  rcases hlast with hall | ⟨g, hg, hvalue⟩
  · exact absurd (hall (ascii "HOST", ascii "a") (by decide)) (by decide)
  · have hlast : twoHosts.hosts.getLast? = some (ascii "host", []) := by decide
    exact hvalue (Option.some.inj (hg.symm.trans hlast) ▸ rfl)

/-! ### The two clients -/

/-- The request with another target. -/
def HttpRequest.withTarget (r : HttpRequest) (path query fragment : Bytes) : HttpRequest := { r with path, query, fragment }

variable {path query fragment : Bytes}

theorem addHeader_withTarget (h : Bytes × Bytes) : addHeader (r.withTarget path query fragment, b) h =
    ((addHeader (r, b) h).1.withTarget path query fragment, (addHeader (r, b) h).2) := by
  unfold addHeader
  dsimp only
  split
  · split <;> rfl
  · rfl

/-- The headers do not look at the target. -/
theorem foldl_withTarget (l : List (Bytes × Bytes)) : l.foldl addHeader (r.withTarget path query fragment, b) =
    ((l.foldl addHeader (r, b)).1.withTarget path query fragment, (l.foldl addHeader (r, b)).2) := by
  induction l generalizing r b with
  | nil => rfl
  | cons h l ih =>
    rw [List.foldl_cons, List.foldl_cons, addHeader_withTarget]
    exact ih

theorem complete_withTarget : complete (r.withTarget path query fragment) headers host body =
    (complete r headers host body).withTarget path query fragment := by
  unfold complete
  rw [foldl_withTarget]
  dsimp only
  split <;> rfl

/-- A target is written the same in one piece. -/
theorem dumpAs_target (uri : Uri) (m : Nat) :
    (r.withTarget (PoolHosts.target uri) [] []).dumpAs m = (r.withTarget uri.getPath uri.query uri.fragment).dumpAs m := by
  have hstart : ∀ method, (r.withTarget (PoolHosts.target uri) [] []).startLine method =
      (r.withTarget uri.getPath uri.query uri.fragment).startLine method := by
    intro method
    simp only [HttpRequest.startLine, HttpRequest.withTarget, PoolHosts.target, if_true, List.append_nil, List.append_assoc]
    rfl
  unfold HttpRequest.dumpAs
  refine congrArg (Option.map · _) (funext fun method => ?_)
  rw [hstart]
  rfl

theorem doRequest_dumpAs (method : HttpMethod) (uri : Uri) (headers : GivenHeaders) (body : Bytes) {pool : PoolHosts}
    (hhost : pool.host = uri.host) (hvhost : pool.vhost = []) (m : Nat) :
    (pool.doRequestUri method uri headers body).dumpAs m = (HttpConnection.doRequest method uri headers body).dumpAs m := by
  have hpool : pool.doRequestUri method uri headers body =
      (complete { HttpRequest.new with method } headers uri.host body).withTarget (PoolHosts.target uri) [] [] := by
    rw [← complete_withTarget, ← hhost]
    unfold PoolHosts.doRequestUri PoolHosts.doRequest
    rw [if_pos hvhost]
    rfl
  have hdirect : HttpConnection.doRequest method uri headers body =
      (complete { HttpRequest.new with method } headers uri.host body).withTarget uri.getPath uri.query uri.fragment := by
    rw [← complete_withTarget]
    rfl
  rw [hpool, hdirect, dumpAs_target]

/-- A pool for the host of a URI sends what a connection of its own would, whatever number the method has. -/
theorem pool_sends_same (method : HttpMethod) (uri : Uri) (headers : GivenHeaders) (body : Bytes) (pool : PoolHosts)
    (hhost : pool.host = uri.host) (hvhost : pool.vhost = []) (m : Nat) :
    (pool.doRequestUri method uri headers body).dumpAs m = (HttpConnection.doRequest method uri headers body).dumpAs m ∧
      (pool.doGetUri uri headers body).dumpAs m = (HttpConnection.doGet uri headers body).dumpAs m ∧
      (pool.doPostUri uri headers body).dumpAs m = (HttpConnection.doPost uri headers body).dumpAs m :=
  ⟨doRequest_dumpAs method uri headers body hhost hvhost m, doRequest_dumpAs .get uri headers body hhost hvhost m,
    doRequest_dumpAs .post uri headers body hhost hvhost m⟩

theorem pool_sends_same_sylar :
    (PoolHosts.doGetUri ⟨ascii "www.sylar.top", []⟩ sylarUri twoHosts []).dumpAs 1 =
      (HttpConnection.doGet sylarUri twoHosts []).dumpAs 1 :=
  (pool_sends_same .get sylarUri twoHosts [] ⟨ascii "www.sylar.top", []⟩ rfl rfl 1).2.1

end Http
end MyHttp
