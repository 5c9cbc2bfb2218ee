import CodexRouter.Admission.Snapshot
import CodexRouter.Lib.Fallible

set_option autoImplicit false

/-! # What the service knows after any number of refreshes

`AdmissionService.refresh` checks a file to the end before it stores anything. Whatever the files
were, the service holds the version, the scores and the bindings of one snapshot, or none at all.
-/

namespace CodexRouter.Admission

open Lib

/-- What holds of the stored contents, with or without a snapshot. -/
structure Scores.Valid (known : Scores) : Prop where
  scores : ∀ e ∈ known.scores, 0 ≤ e.2 ∧ e.2 ≤ 100
  absolute : ∀ b ∈ known.bindings, b.1.head? = some "/"
  distinct : (known.bindings.map Prod.fst).Nodup

/-- The contents of a snapshot as the file has to give them. -/
structure Scores.WellFormed (snapshot : Scores) : Prop extends snapshot.Valid where
  version : 0 ≤ snapshot.version
  keys : ∀ b ∈ snapshot.bindings, b.2 ≠ ""

/-- `Path.resolve` returns an absolute path. -/
def Env.Absolute (env : Env) : Prop :=
  ∀ path resolved, env.resolve path = .ok resolved → resolved.head? = some "/"

variable {env : Env} {known snapshot : Scores}

/-- The passes of a `refresh` that raises nothing. -/
theorem loadSnapshot_ok (h : loadSnapshot env = .ok snapshot) :
    ∃ file value members items parsed checked, env.snapshot = .ok file ∧ file.loads = .ok value ∧
      parseShape value = .ok (snapshot.version, members, items) ∧
      (members.mapM fun m => do return (m.1, ← parseScore m.2)) = .ok snapshot.scores ∧
      items.mapM parseBinding = .ok parsed ∧ parsed.mapM checkBinding = .ok checked ∧
      (checked.mapM fun b => do return (← env.resolve b.1, b.2)) = .ok snapshot.bindings ∧
      (snapshot.bindings.map Prod.fst).Nodup := by
  unfold loadSnapshot at h
  obtain ⟨file, hfile, h⟩ := bind_eq_ok_iff.mp h
  split at h
  · cases h
  · obtain ⟨value, hvalue, h⟩ := bind_eq_ok_iff.mp h
    obtain ⟨⟨version, members, items⟩, hshape, h⟩ := bind_eq_ok_iff.mp h
    obtain ⟨scored, hscored, h⟩ := bind_eq_ok_iff.mp h
    obtain ⟨parsed, hparsed, h⟩ := bind_eq_ok_iff.mp h
    obtain ⟨checked, hchecked, h⟩ := bind_eq_ok_iff.mp h
    obtain ⟨resolved, hresolved, h⟩ := bind_eq_ok_iff.mp h
    split at h
    · cases h
    · rename_i hnodup
      cases h
      exact ⟨file, value, members, items, parsed, checked, hfile, hvalue, hshape, hscored, hparsed,
        hchecked, hresolved, not_not.mp hnodup⟩

theorem subscript_ok {value v : Json} {key : String} (h : subscript value key = .ok v) :
    value.get? key = some v := by
  cases value with
  | obj members =>
    unfold subscript at h
    cases hget : (Json.obj members).get? key with
    | none => simp [hget] at h
    | some w => grind
  | _ => cases h

theorem parseShape_ok {value : Json} {version : Int} {scores : List (String × Json)}
    {bindings : List Json} (h : parseShape value = .ok (version, scores, bindings)) :
    0 ≤ version ∧ value.get? "scores" = some (.obj scores)
      ∧ value.get? "bindings" = some (.arr bindings) := by
  obtain ⟨v, -, h⟩ := bind_eq_ok_iff.mp h
  obtain ⟨s, hs, h⟩ := bind_eq_ok_iff.mp h
  obtain ⟨b, hb, h⟩ := bind_eq_ok_iff.mp h
  split at h
  · split at h
    · cases h
    · rename_i hversion
      cases h
      exact ⟨not_lt.mp hversion, subscript_ok hs, subscript_ok hb⟩
  · cases h

theorem parseScore_ok {value : Json} {q : ℚ} (h : parseScore value = .ok q) :
    (value = .float (.finite q) ∨ ∃ n : Int, value = .int n ∧ q = n) ∧ 0 ≤ q ∧ q ≤ 100 := by
  unfold parseScore at h
  split at h
  · split at h
    · cases h
    · split at h
      · rename_i n _ hrange
        cases h
        exact ⟨Or.inr ⟨n, rfl, rfl⟩, by exact_mod_cast hrange⟩
      · cases h
  · split at h
    · rename_i hrange
      cases h
      exact ⟨Or.inl rfl, hrange⟩
    · cases h
  · cases h

theorem checkBinding_ok {b : String × Json} {c : String × String} (h : checkBinding b = .ok c) :
    b = (c.1, .str c.2) ∧ c.1.toList.head? = some '/' ∧ c.2 ≠ "" := by
  unfold checkBinding at h
  split at h
  · split at h
    · rename_i hchecked
      cases h
      exact ⟨rfl, hchecked⟩
    · cases h
  · cases h

theorem loadSnapshot_wellFormed (henv : env.Absolute) (h : loadSnapshot env = .ok snapshot) :
    snapshot.WellFormed := by
  obtain ⟨_, _, _, _, _, _, -, -, hshape, hscored, -, hchecked, hresolved, hnodup⟩ :=
    loadSnapshot_ok h
  -- every result of a pass comes from a value of the pass before
  refine ⟨⟨fun e he => ?_, fun b hb => ?_, hnodup⟩, (parseShape_ok hshape).1, fun b hb => ?_⟩
  · obtain ⟨_, -, hm⟩ := mem_of_mapM_eq_ok hscored he
    obtain ⟨q, hq, hm⟩ := bind_eq_ok_iff.mp hm
    cases hm
    exact (parseScore_ok hq).2
  · obtain ⟨_, -, hc⟩ := mem_of_mapM_eq_ok hresolved hb
    obtain ⟨path, hpath, hc⟩ := bind_eq_ok_iff.mp hc
    cases hc
    exact henv _ _ hpath
  · obtain ⟨c, hmem, hc⟩ := mem_of_mapM_eq_ok hresolved hb
    obtain ⟨path, -, hc⟩ := bind_eq_ok_iff.mp hc
    cases hc
    obtain ⟨_, -, hchecked⟩ := mem_of_mapM_eq_ok hchecked hmem
    exact (checkBinding_ok hchecked).2.2

/-- A call of `refresh` stores one whole snapshot that is not older, or nothing. -/
theorem refresh_cases (configured : Bool) (henv : env.Absolute) (known : Scores) :
    (refresh configured env known).1 = known ∨
      ∃ snapshot, loadSnapshot env = .ok snapshot ∧ snapshot.WellFormed ∧
        known.version ≤ snapshot.version ∧ (refresh configured env known).1 = snapshot := by
  unfold refresh
  split
  · cases hload : loadSnapshot env with
    | error exn => exact Or.inl rfl
    | ok snapshot =>
      by_cases hversion : known.version ≤ snapshot.version
      · right
        refine ⟨snapshot, rfl, loadSnapshot_wellFormed henv hload, hversion, ?_⟩
        simp only [if_pos hversion]
      · left
        simp only [if_neg hversion]
  · exact Or.inl rfl

/-- What the service knows after the files of a list. -/
def knownAfter (configured : Bool) (envs : List Env) : Scores :=
  envs.foldl (fun known env => (refresh configured env known).1) Scores.init

theorem valid_knownAfter (configured : Bool) {envs : List Env}
    (henvs : ∀ env ∈ envs, env.Absolute) :
    (knownAfter configured envs).Valid := by
  induction envs using List.reverseRecOn with
  | nil =>
    exact ⟨by simp [knownAfter, Scores.init], by simp [knownAfter, Scores.init], List.nodup_nil⟩
  | append_singleton envs env ih =>
    have hvalid := ih fun e he => henvs e (List.mem_append_left _ he)
    unfold knownAfter at hvalid ⊢
    rw [List.foldl_append, List.foldl_cons, List.foldl_nil]
    rcases refresh_cases configured (henvs env (by simp)) _ with h | ⟨_, -, hformed, -, h⟩
    · rw [h]
      exact hvalid
    · rw [h]
      exact hformed.toValid

/-- **A refresh takes a whole snapshot or nothing**, after any files: it stores the version, the
scores and the bindings of a well-formed snapshot of no older version, or leaves them as they are.
What is stored keeps its bounds, and the version never goes down. -/
theorem refresh_knownAfter (configured : Bool) (envs : List Env) (env : Env)
    (henvs : ∀ e ∈ env :: envs, e.Absolute) :
    let known := knownAfter configured envs
    let next := (refresh configured env known).1
    (next = known ∨ loadSnapshot env = .ok next ∧ next.WellFormed) ∧
      known.Valid ∧ known.version ≤ next.version := by
  intro known next
  have hvalid := valid_knownAfter configured fun e he => henvs e (List.mem_cons_of_mem _ he)
  rcases refresh_cases configured (henvs env List.mem_cons_self) known with
    h | ⟨snapshot, hload, hformed, hversion, h⟩
  · exact ⟨Or.inl h, hvalid, h.symm ▸ le_rfl⟩
  · have hnext : next = snapshot := h
    exact ⟨Or.inr (hnext ▸ ⟨hload, hformed⟩), hvalid, hnext ▸ hversion⟩

/-- A file with one score and one binding, in a file system where a path resolves to its name at
the root. -/
def oneScore (version : Int) : Env :=
  { snapshot := .ok ⟨100, .ok (.obj [("fit_version", .int version),
      ("scores", .obj [("key", .float (.finite 80))]),
      ("bindings", .arr [.obj [("cwd", .str "/repo"), ("key", .str "key")]])])⟩
    resolve := fun path => .ok ["/", path]
    monotonic := 0 }

theorem refresh_knownAfter_older :
    (refresh true (oneScore 1) (knownAfter true [oneScore 2])).1
        = ⟨2, [("key", 80)], [(["/", "/repo"], "key")]⟩ ∧
      (knownAfter true [oneScore 2]).version ≤
        (refresh true (oneScore 1) (knownAfter true [oneScore 2])).1.version := by
  refine ⟨rfl, (refresh_knownAfter true [oneScore 2] (oneScore 1) ?_).2.2⟩
  intro e he path resolved hresolved
  rcases List.mem_cons.mp he with rfl | he
  · cases hresolved
    rfl
  · rw [List.mem_singleton.mp he] at hresolved
    cases hresolved
    rfl

end CodexRouter.Admission
