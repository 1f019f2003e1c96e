import Boatdash.Spec.HttpUi

/-!
# The URI table

`HTTPD_DEFAULT_CONFIG` sets no matcher, so a template is a path, and `"/*"` is no wildcard.
`handlers_start` gives the table `http_ui_start` builds; `dispatch_intended_iff`: **a request
reaches the handler meant for it exactly unless it is a GET of a path other than `"/ws"` and
`"/*"` itself.** The page at `"/"` is served by no handler.
-/

namespace Boatdash

/-- The handler a request is meant for. -/
def intended (req : HttpRequest) : Option Handler :=
  match req.method with
  | .get => if req.path = "/ws" then some .wsHandler else some .staticGetHandler
  | .post => if req.path = "/api/relays" then some .relaysPostHandler else none
  | .other _ => none

/-- A GET that the catch-all entry is meant to serve, and does not. -/
def Missed (req : HttpRequest) : Prop :=
  req.method = .get ∧ req.path ≠ "/ws" ∧ req.path ≠ "/*"

instance (req : HttpRequest) : Decidable (Missed req) := inferInstanceAs (Decidable (_ ∧ _))

/-- **The table after `http_ui_start`**: no entry stands in another's way, so each is there if
the server had room for it. -/
theorem handlers_start (env : HttpdEnv) (hstart : env.start = espOk) :
    (httpUiStart env {}).sServer = some
      { config := httpdDefaultConfig WsFds
        handlers := (if env.room 0 then [anyStatic] else []) ++
          (if env.room 1 then [relays] else []) ++ if env.room 2 then [ws] else [] } := by
  unfold httpUiStart
  rw [if_neg (by decide), if_neg (not_not.2 hstart)]
  cases env.room 0 <;> cases env.room 1 <;> cases env.room 2 <;> rfl

/-- The server did not start: there is no table. -/
theorem handlers_failed (env : HttpdEnv) (hstart : env.start ≠ espOk) :
    (httpUiStart env {}).sServer = none := by
  unfold httpUiStart
  rw [if_neg (by decide), if_pos hstart]

/-- All three handlers are registered exactly if every call of `http_ui_start` succeeded. -/
theorem handlers_all_iff (env : HttpdEnv) :
    (httpUiStart env {}).sServer.elim [] (·.handlers) = [anyStatic, relays, ws] ↔
      env.start = espOk ∧ ∀ i, env.room i = true := by
  by_cases hstart : env.start = espOk
  · rw [handlers_start env hstart]
    have hall : (∀ i, env.room i = true) ↔
        env.room 0 = true ∧ env.room 1 = true ∧ env.room 2 = true := by
      simp [Fin.forall_fin_succ]
    rw [hall]
    simp only [hstart, true_and, Option.elim]
    cases env.room 0 <;> cases env.room 1 <;> cases env.room 2 <;> decide
  · rw [handlers_failed env hstart]
    exact iff_of_false (by simp) fun h => hstart h.1

/-- The dispatch of the full table. -/
theorem dispatch_started {env : HttpdEnv} {srv : Httpd WsFds Handler}
    (hstart : env.start = espOk) (hroom : ∀ i, env.room i = true)
    (hsrv : (httpUiStart env {}).sServer = some srv) (req : HttpRequest) :
    srv.dispatch req =
      match req.method with
      | .get => if req.path = "/*" then some .staticGetHandler
          else if req.path = "/ws" then some .wsHandler else none
      | .post => if req.path = "/api/relays" then some .relaysPostHandler else none
      | .other _ => none := by
  rw [handlers_start env hstart, hroom 0, hroom 1, hroom 2] at hsrv
  cases hsrv
  obtain ⟨method, path, query⟩ := req
  -- the entries one by one: a template matches the path that it is
  have hmatch : ∀ template, (httpdDefaultConfig WsFds).uriMatches template path =
      decide (path = template) := by
    intro template
    simp only [HttpdConfig.uriMatches, httpdDefaultConfig, eq_comm]
  simp only [Httpd.dispatch, Httpd.find, if_true, List.cons_append, List.nil_append,
    List.find?_cons, List.find?_nil, hmatch, anyStatic, relays, ws]
  cases method with
  | get =>
    by_cases hany : path = "/*"
    · simp [hany]
    · by_cases hws : path = "/ws" <;> simp [hany, hws]
  | post => by_cases hrel : path = "/api/relays" <;> simp [hrel]
  | other code => simp

/-- **When a request is routed as intended.** -/
theorem dispatch_intended_iff (env : HttpdEnv) {srv : Httpd WsFds Handler}
    (hstart : env.start = espOk) (hroom : ∀ i, env.room i = true)
    (hsrv : (httpUiStart env {}).sServer = some srv) (req : HttpRequest) :
    srv.dispatch req = intended req ↔ ¬ Missed req := by
  rw [dispatch_started hstart hroom hsrv]
  obtain ⟨method, path, query⟩ := req
  cases method with
  | get =>
    by_cases hws : path = "/ws"
    · subst hws; exact iff_of_true rfl fun h => h.2.1 rfl
    · by_cases hany : path = "/*"
      · subst hany; exact iff_of_true rfl fun h => h.2.2 rfl
      · refine iff_of_false ?_ (not_not.2 ⟨rfl, hws, hany⟩)
        simp [intended, hws, hany]
  | post => exact iff_of_true rfl fun h => nomatch h.1
  | other code => exact iff_of_true rfl fun h => nomatch h.1

/-- The relays' requests arrive. -/
theorem dispatch_intended_relays :
    Httpd.dispatch ⟨httpdDefaultConfig WsFds, [anyStatic, relays, ws]⟩
      ⟨.post, "/api/relays", none⟩ = some .relaysPostHandler :=
  (dispatch_intended_iff {} rfl (fun _ => rfl) rfl ⟨.post, "/api/relays", none⟩).2 (by decide)

/-- **The page at `"/"`** is not served. -/
theorem root_unserved : ¬ ∀ (env : HttpdEnv) (srv : Httpd WsFds Handler) (req : HttpRequest),
    env.start = espOk → (∀ i, env.room i = true) → (httpUiStart env {}).sServer = some srv →
      srv.dispatch req = intended req := by
  intro h
  have hroot := h {} _ ⟨.get, "/", none⟩ rfl (fun _ => rfl) rfl
  exact absurd hroot (by decide)

end Boatdash
