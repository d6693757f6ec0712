import RoutePattern.Proofs.Result
import RoutePattern.Session

/-!
# What requests change

A request that fails changes nothing: if it is left out, all others are answered as before, and the
session ends up the same. One that does not fail changes at most one part of the session, which can be told
from the request: the pattern with an id, the result with a name, or the parameters.

What a request reads can be told from it, too. So it is answered in the same way until one of the parts
that it reads is changed: a match gives the same as long as its pattern is neither replaced nor dropped, and
a result that is kept does not depend on what becomes of the pattern that it was found with.

## Main definitions

* `Session.after` — the session after requests; `Session.fulfilled` — the requests that do not fail.
* `Session.run_fulfilled` — requests that fail can be left out.
* `Session.Part`, `Session.content` — what a session consists of.
* `Session.content_after`, `Session.answer_after`, `Session.run_concat` — what stays the same.
-/

namespace RoutePattern.Session

variable {s s' : Session} {request : Request} {requests : List Request}

/-! ## One request after another -/

/-- The answer to a request. -/
def answer (s : Session) (request : Request) : Except Error Answer := Prod.fst <$> s.step request

/-- The session after a request. -/
def next (s : Session) (request : Request) : Session :=
  match s.step request with
  | .ok (_, s') => s'
  | .error _ => s

/-- The session after requests. -/
def after (s : Session) (requests : List Request) : Session := requests.foldl next s

theorem after_cons (s : Session) (request : Request) (requests : List Request) :
    s.after (request :: requests) = (s.next request).after requests := rfl

theorem run_cons (s : Session) (request : Request) (requests : List Request) :
    s.run (request :: requests) = s.answer request :: (s.next request).run requests := by
  rw [run, answer, next]
  cases s.step request <;> rfl

theorem run_append (s : Session) (requests requests' : List Request) :
    s.run (requests ++ requests') = s.run requests ++ (s.after requests).run requests' := by
  induction requests generalizing s with
  | nil => rfl
  | cons request requests ih => rw [List.cons_append, run_cons, run_cons, ih, after_cons, List.cons_append]

/-! ## Requests that fail -/

theorem next_of_error {error : Error} (h : s.answer request = .error error) : s.next request = s := by
  rw [next]
  cases hstep : s.step request with
  | error _ => rfl
  | ok r =>
    rw [answer, hstep] at h
    cases h

/-- The requests that do not fail when they are asked one after another. -/
def fulfilled (s : Session) : List Request → List Request
  | [] => []
  | request :: requests =>
    if (s.answer request).isOk then request :: (s.next request).fulfilled requests
    else s.fulfilled requests

/-- **Requests that fail change nothing.** The others are answered as if they had not been asked. -/
theorem run_fulfilled (s : Session) (requests : List Request) :
    s.run (s.fulfilled requests) = (s.run requests).filter Except.isOk ∧
      s.after (s.fulfilled requests) = s.after requests := by
  induction requests generalizing s with
  | nil => exact ⟨rfl, rfl⟩
  | cons request requests ih =>
    rw [fulfilled, run_cons, after_cons]
    cases h : s.answer request with
    | ok answer =>
      obtain ⟨hrun, hafter⟩ := ih (s.next request)
      refine ⟨?_, hafter⟩
      show s.run (request :: (s.next request).fulfilled requests) = _
      rw [run_cons, h, hrun]
      rfl
    | error error =>
      rw [next_of_error h]
      exact ih s

/-! ## Parts of a session -/

/-- What a session consists of. -/
inductive Part where
  /-- The pattern with an id. -/
  | pattern (id : Text)
  /-- The result with a name. -/
  | result (name : Text)
  | params
  deriving DecidableEq, Repr

/-- What can stand in a part. -/
abbrev Part.Content : Part → Type
  | .pattern _ => Option Pattern
  | .result _ => Option (Option MatchResult)
  | .params => Params

/-- What stands in a part. -/
def content (s : Session) : (part : Part) → part.Content
  | .pattern id => s.patterns.get? id
  | .result name => s.results.get? name
  | .params => s.params

/-- The part that a request changes. -/
def Request.target? : Request → Option Part
  | .create id _ _ | .createRegex id _ _ | .clone _ id | .drop id => some (.pattern id)
  | .find _ _ name => name.map .result
  | .load _ | .set _ _ | .unset _ | .clear => some .params
  | .info _ | .get _ _ | .inspect _ | .compare _ _ | .render _ | .roundTrip _ => none

/-- The parts that the answer to a request depends on. -/
def Request.sources : Request → List Part
  | .create _ _ _ | .createRegex _ _ _ | .clear => []
  | .clone id _ | .drop id | .info id | .find id _ _ => [.pattern id]
  | .get result _ | .inspect result => [.result result]
  | .compare result other => [.result result, .result other]
  | .load result => [.result result, .params]
  | .set _ _ | .unset _ => [.params]
  | .render id | .roundTrip id => [.pattern id, .params]

/-! ## What requests change -/

/-- At most one part of a session is changed. -/
inductive Changes (s : Session) : Option Part → Session → Prop
  | none : Changes s none s
  | pattern {id : Text} {patterns : NameMap Pattern}
      (h : ∀ other, other ≠ id → patterns.get? other = s.patterns.get? other) :
      Changes s (some (.pattern id)) { s with patterns }
  | result {name : Text} {results : NameMap (Option MatchResult)}
      (h : ∀ other, other ≠ name → results.get? other = s.results.get? other) :
      Changes s (some (.result name)) { s with results }
  | params (params : Params) : Changes s (some .params) { s with params }

theorem changes_store (s : Session) (id : Text) (p : Pattern) :
    Changes s (some (.pattern id)) (s.store id p).2 :=
  .pattern fun other hother => by rw [NameMap.get?_insert, if_neg hother]

/-- What one request changes. -/
theorem changes_of_step {answer : Answer} (h : s.step request = .ok (answer, s')) :
    Changes s request.target? s' := by
  cases request with
  | create id text options =>
    obtain ⟨o, _, h⟩ := bind_eq_ok_iff.mp h
    obtain ⟨p, _, h⟩ := bind_eq_ok_iff.mp h
    cases h
    exact changes_store s id p
  | createRegex id source names =>
    obtain ⟨p, _, h⟩ := bind_eq_ok_iff.mp h
    cases h
    exact changes_store s id p
  | clone id target =>
    obtain ⟨p, _, h⟩ := bind_eq_ok_iff.mp h
    cases h
    exact changes_store s target p
  | drop id =>
    cases h
    exact .pattern fun other hother => by rw [NameMap.get?_erase, if_neg hother]
  | find id input name =>
    obtain ⟨p, _, h⟩ := bind_eq_ok_iff.mp h
    cases name with
    | none =>
      cases h
      exact .none
    | some name =>
      cases h
      exact .result fun other hother => by rw [NameMap.get?_insert, if_neg hother]
  | load result =>
    obtain ⟨m, _, h⟩ := bind_eq_ok_iff.mp h
    cases hm : m.named? with
    | none =>
      rw [hm] at h
      cases h
    | some params =>
      rw [hm] at h
      cases h
      exact .params _
  | set key value =>
    rw [step] at h
    split at h
    · cases h
      exact .params _
    · cases h
  | unset key =>
    cases h
    exact .params _
  | clear =>
    cases h
    exact .params _
  | info id | get result key | inspect result =>
    obtain ⟨_, _, h⟩ := bind_eq_ok_iff.mp h
    cases h
    exact .none
  | compare result other | render id | roundTrip id =>
    obtain ⟨_, _, h⟩ := bind_eq_ok_iff.mp h
    obtain ⟨_, _, h⟩ := bind_eq_ok_iff.mp h
    cases h
    exact .none

theorem content_of_changes {target : Option Part} (h : Changes s target s') {part : Part}
    (hpart : target ≠ some part) : s'.content part = s.content part := by
  cases h with
  | none => rfl
  | @pattern id patterns h =>
    cases part with
    | pattern other => exact h other fun heq => hpart (by rw [heq])
    | result _ | params => rfl
  | @result name results h =>
    cases part with
    | result other => exact h other fun heq => hpart (by rw [heq])
    | pattern _ | params => rfl
  | params params =>
    cases part with
    | params => exact absurd rfl hpart
    | pattern _ | result _ => rfl

theorem content_next {part : Part} (h : request.target? ≠ some part) :
    (s.next request).content part = s.content part := by
  rw [next]
  cases hstep : s.step request with
  | error _ => rfl
  | ok r => exact content_of_changes (changes_of_step hstep) h

/-- **A part that no request is about stays as it is.** -/
theorem content_after {part : Part} (h : ∀ request ∈ requests, request.target? ≠ some part) :
    (s.after requests).content part = s.content part := by
  induction requests generalizing s with
  | nil => rfl
  | cons request requests ih =>
    obtain ⟨hrequest, hrequests⟩ := List.forall_mem_cons.mp h
    rw [after_cons, ih hrequests, content_next hrequest]

/-! ## What requests read -/

theorem pattern?_congr {id : Text} (h : s.content (.pattern id) = s'.content (.pattern id)) :
    s.pattern? id = s'.pattern? id := by
  have hget : s.patterns.get? id = s'.patterns.get? id := h
  rw [pattern?, pattern?, hget]

theorem result?_congr {name : Text} (h : s.content (.result name) = s'.content (.result name)) :
    s.result? name = s'.result? name := by
  have hget : s.results.get? name = s'.results.get? name := h
  rw [result?, result?, hget]

/-- The answer depends on nothing but what the request reads. -/
theorem answer_congr (h : ∀ part ∈ request.sources, s.content part = s'.content part) :
    s.answer request = s'.answer request := by
  rw [answer, answer]
  cases request with
  | create id text options | createRegex id source names =>
    simp only [step, map_bind]
    rfl
  | clone id _ | info id =>
    simp only [step, map_bind, pattern?_congr (h _ (List.mem_singleton_self _))]
    rfl
  | drop id =>
    have hget : s.patterns.get? id = s'.patterns.get? id := h (.pattern id) (List.mem_singleton_self _)
    simp only [step, NameMap.contains, hget]
    rfl
  | find id input name =>
    simp only [step, map_bind, pattern?_congr (h _ (List.mem_singleton_self _))]
    cases name <;> rfl
  | get result _ | inspect result =>
    simp only [step, map_bind, result?_congr (h _ (List.mem_singleton_self _))]
    rfl
  | compare result other =>
    simp only [step, map_bind, result?_congr (h (.result result) List.mem_cons_self),
      result?_congr (h (.result other) (List.mem_cons_of_mem _ (List.mem_singleton_self _)))]
    rfl
  | load result =>
    have hparams : s.params = s'.params := h .params (List.mem_cons_of_mem _ (List.mem_singleton_self _))
    simp only [step, map_bind, result?_congr (h (.result result) List.mem_cons_self), hparams]
    refine bind_congr fun m => ?_
    cases m.named? <;> rfl
  | set key value =>
    have hparams : s.params = s'.params := h .params (List.mem_singleton_self _)
    rw [step, step, hparams]
    cases ParamValue.ofDocument? value <;> rfl
  | unset key =>
    have hparams : s.params = s'.params := h .params (List.mem_singleton_self _)
    rw [step, step, hparams]
    rfl
  | clear => rfl
  | render id | roundTrip id =>
    have hparams : s.params = s'.params := h .params (List.mem_cons_of_mem _ (List.mem_singleton_self _))
    simp only [step, map_bind, pattern?_congr (h (.pattern id) List.mem_cons_self), hparams]
    rfl

/-- **A request is answered in the same way** until a part that it reads is changed. -/
theorem answer_after (h : ∀ part ∈ request.sources, ∀ earlier ∈ requests, earlier.target? ≠ some part) :
    (s.after requests).answer request = s.answer request :=
  answer_congr fun part hpart => content_after (h part hpart)

/-- Behind other requests it is answered as it would be in front of them. -/
theorem run_concat (h : ∀ part ∈ request.sources, ∀ earlier ∈ requests, earlier.target? ≠ some part) :
    s.run (requests ++ [request]) = s.run requests ++ [s.answer request] := by
  rw [run_append, run_cons, answer_after h]
  rfl

end RoutePattern.Session
