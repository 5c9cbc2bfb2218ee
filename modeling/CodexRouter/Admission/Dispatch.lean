import CodexRouter.Admission.Service
import CodexRouter.Lib.Fallible

set_option autoImplicit false

/-! # The admission service: what a dispatch does

A dispatch that raises nothing grants the free slots to the waiting calls of highest priority,
the earlier arrival first among equals, and touches nothing else (`ServesFirst`). A dispatch
that raises grants nothing. The invariant of the table, `Settled`, is what a dispatch
establishes: the granted calls fit into the slots, and a call waits only while all slots are
taken.
-/

namespace CodexRouter.Admission

open CodexRouter.Lib

/-! ## The table of calls -/

namespace Calls

@[simp] theorem table_insert (calls : Calls) (call : Call) :
    (calls.insert call).table = calls.table.insert call.identity call := rfl

theorem get?_insert (calls : Calls) (call : Call) (key : Identity) :
    (calls.insert call).get? key = if key = call.identity then some call else calls.get? key :=
  Table.get?_insert _ _ _ _

theorem get?_erase (calls : Calls) (key key' : Identity) :
    (calls.erase key).get? key' = if key' = key then none else calls.get? key' :=
  Table.get?_erase _ _ _

variable {calls : Calls} {call : Call}

theorem identity_of_get? {key : Identity} (h : calls.get? key = some call) : call.identity = key :=
  calls.keyed _ (Table.get?_eq_some_iff.mp h)

theorem get?_eq_none_iff {key : Identity} : calls.get? key = none ↔ calls.contains key = false := by
  rw [contains, Table.contains, Option.isSome_eq_false_iff, Option.isNone_iff_eq_none]
  rfl

theorem mem_values : call ∈ calls.values ↔ calls.get? call.identity = some call := by
  rw [get?, Table.get?_eq_some_iff, values, Table.values, List.mem_map]
  constructor
  · rintro ⟨e, he, rfl⟩
    rw [calls.keyed e he]
    exact he
  · exact fun h => ⟨_, h, rfl⟩

theorem mem_queued :
    call ∈ calls.queued ↔ calls.get? call.identity = some call ∧ call.state = .queued := by
  rw [queued, List.mem_filter, mem_values, decide_eq_true_iff]

theorem nodup_identity_queued (calls : Calls) : (calls.queued.map Call.identity).Nodup := by
  have hmap : calls.values.map Call.identity = calls.table.entries.map Prod.fst := by
    rw [values, Table.values, List.map_map]
    exact List.map_congr_left fun e he => calls.keyed e he
  have hnodup : (calls.values.map Call.identity).Nodup := hmap ▸ calls.table.nodup
  exact hnodup.sublist (List.filter_sublist.map _)

theorem granted_eq (calls : Calls) :
    calls.granted = calls.table.entries.countP fun e => e.2.state = .granted := by
  rw [granted, values, Table.values, List.countP_map]
  rfl

/-- Every call is queued or granted. -/
theorem queued_add_granted (calls : Calls) :
    calls.queued.length + calls.granted = calls.table.size := by
  have h := List.length_eq_countP_add_countP (l := calls.values)
    fun call : Call => call.state = .queued
  have hgranted : calls.granted = calls.values.countP fun call => ¬ call.state = .queued := by
    refine List.countP_congr fun call _ => ?_
    cases call.state <;> simp
  have hsize : calls.values.length = calls.table.size := List.length_map _
  rw [queued, ← List.countP_eq_length_filter, hgranted, ← hsize]
  simpa using h.symm

theorem granted_erase_le (calls : Calls) (key : Identity) :
    (calls.erase key).granted ≤ calls.granted := by
  rw [granted_eq, granted_eq]
  exact List.filter_sublist.countP_le

theorem granted_insert_queued (call : Call) (hnew : calls.contains call.identity = false)
    (hq : call.state = .queued) : (calls.insert call).granted = calls.granted := by
  rw [granted_eq, granted_eq]
  have h := Table.countP_insert_of_not_contains (v := call) hnew
    (fun e => decide (e.2.state = .granted))
  simpa [hq] using h

/-- Granting a queued call. -/
theorem granted_insert_granted (h : calls.get? call.identity = some call)
    (hq : call.state = .queued) :
    (calls.insert { call with state := .granted }).granted = calls.granted + 1
    ∧ (calls.insert { call with state := .granted }).table.size = calls.table.size := by
  constructor
  · rw [granted_eq, granted_eq]
    have hc := Table.countP_insert_of_get? (v := { call with state := .granted }) h
      (fun e => decide (e.2.state = .granted))
    simpa [hq] using hc
  · exact Table.size_insert_of_contains (by rw [Table.contains]; exact Option.isSome_of_eq_some h)

end Calls

/-! ## Granting -/

/-- After a row of grants, a call of the row is granted and any other is as it was. -/
theorem get?_foldl_grant (chosen : List Call) :
    ∀ (s : System) (key : Identity), (chosen.map Call.identity).Nodup →
      (chosen.foldl grant s).calls.get? key
        = match chosen.find? fun call => call.identity = key with
          | some call => some { call with state := .granted }
          | none => s.calls.get? key := by
  induction chosen with
  | nil => intro s key _; rfl
  | cons call chosen ih =>
    intro s key hn
    rw [List.map_cons, List.nodup_cons] at hn
    rw [List.foldl_cons, ih _ key hn.2, List.find?_cons]
    have hget : (grant s call).calls.get? key
        = if key = call.identity then some { call with state := .granted }
          else s.calls.get? key := Calls.get?_insert _ _ _
    by_cases hk : call.identity = key
    · -- no later call of the row has the same identity
      have hnone : chosen.find? (fun call => call.identity = key) = none := by grind
      rw [hnone, hget]
      simp [hk]
    · rw [hget, if_neg (Ne.symm hk)]
      simp [hk]

variable {s t : System} {env : Env} {known : Scores} {waiting : List (ℚ × Call)}

theorem get?_foldl_grant_of_mem {chosen : List Call} (hn : (chosen.map Call.identity).Nodup)
    {call : Call} (hc : call ∈ chosen) :
    (chosen.foldl grant s).calls.get? call.identity = some { call with state := .granted } := by
  grind [get?_foldl_grant, List.inj_on_of_nodup_map]

theorem foldl_grant_count (chosen : List Call) :
    ∀ s : System, (chosen.map Call.identity).Nodup → (∀ call ∈ chosen, call ∈ s.calls.queued) →
      (chosen.foldl grant s).calls.granted = s.calls.granted + chosen.length
      ∧ (chosen.foldl grant s).calls.table.size = s.calls.table.size := by
  induction chosen with
  | nil => intro s _ _; exact ⟨rfl, rfl⟩
  | cons call chosen ih =>
    intro s hn hq
    rw [List.map_cons, List.nodup_cons] at hn
    obtain ⟨hget, hstate⟩ := Calls.mem_queued.mp (hq call List.mem_cons_self)
    obtain ⟨hcount, hsize⟩ := Calls.granted_insert_granted hget hstate
    have hrest : ∀ c ∈ chosen, c ∈ (grant s call).calls.queued := by
      intro c hc
      obtain ⟨hgetc, hstatec⟩ := Calls.mem_queued.mp (hq c (List.mem_cons_of_mem _ hc))
      refine Calls.mem_queued.mpr ⟨?_, hstatec⟩
      have hne : c.identity ≠ call.identity := fun h => hn.1 (h ▸ List.mem_map_of_mem hc)
      exact (Calls.get?_insert _ _ _).trans ((if_neg hne).trans hgetc)
    obtain ⟨h1, h2⟩ := ih (grant s call) hn.2 hrest
    rw [List.foldl_cons, List.length_cons]
    have hc : (grant s call).calls.granted = s.calls.granted + 1 := hcount
    have hs : (grant s call).calls.table.size = s.calls.table.size := hsize
    exact ⟨by omega, by omega⟩

/-! ## The order of service -/

instance : Std.Total Before := ⟨fun a b => by
  rcases lt_trichotomy a.1 b.1 with h | h | h
  · exact Or.inr (Or.inl h)
  · rcases le_total a.2.queued_at b.2.queued_at with hq | hq
    · exact Or.inl (Or.inr ⟨h.symm, hq⟩)
    · exact Or.inr (Or.inr ⟨h, hq⟩)
  · exact Or.inl (Or.inl h)⟩

instance : IsTrans (ℚ × Call) Before := ⟨fun a b c hab hbc => by
  rcases hab with hab | ⟨hab, hq⟩ <;> rcases hbc with hbc | ⟨hbc, hq'⟩
  · exact Or.inl (lt_trans hbc hab)
  · exact Or.inl (hbc ▸ hab)
  · exact Or.inl (hab ▸ hbc)
  · exact Or.inr ⟨hbc.trans hab, le_trans hq hq'⟩⟩

variable {cfg : Config}

theorem ranked_spec {l : List Call} {ranked : List (ℚ × Call)}
    (h : l.mapM (fun call => do return (← priority cfg env known call, call)) = .ok ranked) :
    ranked.map Prod.snd = l ∧ ∀ w ∈ ranked, priority cfg env known w.2 = .ok w.1 := by
  have hpair := mapM_eq_ok_iff.mp h
  clear h
  induction hpair with
  | nil => exact ⟨rfl, fun _ hw => absurd hw List.not_mem_nil⟩
  | @cons call w l ranked hw _ ih =>
    cases hp : priority cfg env known call with
    | error e => rw [hp] at hw; cases hw
    | ok p =>
      rw [hp] at hw
      cases hw
      refine ⟨by rw [List.map_cons, ih.1], fun w hm => ?_⟩
      rcases List.mem_cons.mp hm with rfl | hm
      · exact hp
      · exact ih.2 w hm

/-- `rank` lists the queued calls, each with its priority, in the order of service. -/
theorem rank_spec {calls : Calls} (h : rank cfg env known calls = .ok waiting) :
    (waiting.map Prod.snd).Perm calls.queued
    ∧ (∀ w ∈ waiting, priority cfg env known w.2 = .ok w.1) ∧ waiting.Pairwise Before := by
  rw [rank] at h
  cases hm : calls.queued.mapM (fun call => do return (← priority cfg env known call, call)) with
  | error e => rw [hm] at h; cases h
  | ok ranked =>
    rw [hm] at h
    cases h
    obtain ⟨hmap, hprio⟩ := ranked_spec hm
    have hperm := List.perm_insertionSort Before ranked
    exact ⟨hmap ▸ hperm.map Prod.snd, fun w hw => hprio w (hperm.mem_iff.mp hw),
      List.pairwise_insertionSort Before ranked⟩

/-! ## `dispatch` -/

/-- The free slots go to the waiting calls that come first. -/
structure ServesFirst (cfg : Config) (env : Env) (s t : System) : Prop where
  /-- As many calls are granted as slots are free, or all that wait. -/
  count : t.calls.granted
    = s.calls.granted + min (cfg.slots - s.calls.granted) s.calls.queued.length
  /-- No call enters or leaves. -/
  size : t.calls.table.size = s.calls.table.size
  /-- A call is left as it is, or was queued and is granted. -/
  change : ∀ key, t.calls.get? key = s.calls.get? key ∨ ∃ call ∈ s.calls.queued,
    call.identity = key ∧ t.calls.get? key = some { call with state := .granted }
  /-- No call that stays queued comes before one that is granted. -/
  first : ∀ a ∈ s.calls.queued, ∀ b ∈ s.calls.queued,
    t.calls.get? a.identity = some { a with state := .granted } →
    t.calls.get? b.identity = some b →
    ∃ pa pb, priority cfg env t.known a = .ok pa ∧ priority cfg env t.known b = .ok pb
      ∧ Before (pa, a) (pb, b)

theorem foldl_grant_known (chosen : List Call) :
    ∀ s : System, (chosen.foldl grant s).known = s.known := by
  induction chosen with
  | nil => intro s; rfl
  | cons call chosen ih => intro s; rw [List.foldl_cons, ih]; rfl

/-- The calls that a dispatch grants are distinct queued calls. -/
theorem rank_take_spec {calls : Calls} (h : rank cfg env known calls = .ok waiting) (n : Nat) :
    (((waiting.map Prod.snd).take n).map Call.identity).Nodup
    ∧ ∀ call ∈ (waiting.map Prod.snd).take n, call ∈ calls.queued := by
  obtain ⟨hperm, _, _⟩ := rank_spec h
  have hsub : ((waiting.map Prod.snd).take n).Sublist (waiting.map Prod.snd) :=
    List.take_sublist _ _
  exact ⟨((hperm.map Call.identity).nodup_iff.mpr calls.nodup_identity_queued).sublist
    (hsub.map _), fun call hc => hperm.mem_iff.mp (hsub.subset hc)⟩

/-- Granting the first calls of the ranking serves the first calls. -/
theorem foldl_grant_servesFirst (h : rank cfg env s.known s.calls = .ok waiting) :
    ServesFirst cfg env s
      (((waiting.map Prod.snd).take (cfg.slots - s.calls.granted)).foldl grant s) := by
  obtain ⟨hperm, hprio, hsorted⟩ := rank_spec h
  set n := cfg.slots - s.calls.granted with hn
  obtain ⟨hnodup, hqueued⟩ := rank_take_spec h n
  have hget := get?_foldl_grant ((waiting.map Prod.snd).take n) s
  refine ⟨?_, (foldl_grant_count _ s hnodup hqueued).2, fun key => ?_,
    fun a ha b hb hta htb => ?_⟩
  · rw [(foldl_grant_count _ s hnodup hqueued).1, List.length_take, hperm.length_eq]
  · grind
  · -- `a` was chosen, or it would still be queued
    have hchosena : a ∈ (waiting.map Prod.snd).take n := by
      rw [hget a.identity hnodup] at hta
      cases hf : ((waiting.map Prod.snd).take n).find? fun call => call.identity = a.identity with
      | none =>
        rw [hf, (Calls.mem_queued.mp ha).1] at hta
        have hstate := congrArg Call.state (Option.some.inj hta)
        rw [(Calls.mem_queued.mp ha).2] at hstate
        cases hstate
      | some call => grind [Calls.mem_queued]
    have hnotb : b ∉ (waiting.map Prod.snd).take n := by
      intro hmem
      rw [get?_foldl_grant_of_mem hnodup hmem] at htb
      have hstate := congrArg Call.state (Option.some.inj htb)
      rw [(Calls.mem_queued.mp hb).2] at hstate
      cases hstate
    rw [← List.map_take] at hchosena hnotb
    obtain ⟨wa, hwa, rfl⟩ := List.mem_map.mp hchosena
    obtain ⟨wb, hwb, rfl⟩ := List.mem_map.mp (hperm.mem_iff.mpr hb)
    have hdrop : wb ∈ waiting.drop n := by
      rw [← List.take_append_drop n waiting] at hwb
      rcases List.mem_append.mp hwb with hwb | hwb
      · exact absurd (List.mem_map_of_mem hwb) hnotb
      · exact hwb
    rw [← List.take_append_drop n waiting] at hsorted
    rw [foldl_grant_known]
    exact ⟨wa.1, wb.1, hprio wa (List.mem_of_mem_take hwa), hprio wb (List.mem_of_mem_drop hdrop),
      (List.pairwise_append.mp hsorted).2.2 wa hwa wb hdrop⟩

theorem ServesFirst.congr_known (h : ServesFirst cfg env { s with known := known } t) :
    ServesFirst cfg env s t :=
  ⟨h.count, h.size, h.change, h.first⟩

/-- The two ways through `dispatch`. -/
theorem dispatch_cases (cfg : Config) (env : Env) (s : System) :
    ∃ known, (∃ exn, dispatch cfg env s = ({ s with known := known }, some exn))
      ∨ ∃ waiting, rank cfg env known s.calls = .ok waiting ∧ dispatch cfg env s
        = (((waiting.map Prod.snd).take (cfg.slots - s.calls.granted)).foldl grant
            { s with known := known }, none) := by
  unfold dispatch
  rcases refresh cfg.snapshot env s.known with ⟨known, _ | exn⟩
  · refine ⟨known, ?_⟩
    simp only
    cases hrank : rank cfg env known s.calls with
    | error exn => exact Or.inl ⟨exn, rfl⟩
    | ok waiting => exact Or.inr ⟨waiting, rfl, rfl⟩
  · exact ⟨known, Or.inl ⟨exn, rfl⟩⟩

/-- **A dispatch that raises nothing serves the first calls**, from any state. -/
theorem dispatch_servesFirst (h : dispatch cfg env s = (t, none)) : ServesFirst cfg env s t := by
  obtain ⟨known, ⟨exn, hraise⟩ | ⟨waiting, hrank, hok⟩⟩ := dispatch_cases cfg env s
  · rw [hraise] at h; cases h
  · rw [hok] at h
    cases h
    exact (foldl_grant_servesFirst (s := { s with known := known }) hrank).congr_known

/-- A dispatch that raises grants nothing. -/
theorem dispatch_raises {exn : Exn} (h : dispatch cfg env s = (t, some exn)) :
    t.calls = s.calls ∧ t.conns = s.conns := by
  obtain ⟨known, ⟨exn', hraise⟩ | ⟨waiting, hrank, hok⟩⟩ := dispatch_cases cfg env s
  · rw [hraise] at h; cases h; exact ⟨rfl, rfl⟩
  · rw [hok] at h; cases h

/-! ## When a dispatch raises nothing -/

/-- `refresh` lets no exception through. It does not depend on what is known already. -/
def Env.Readable (cfg : Config) (env : Env) : Prop :=
  (refresh cfg.snapshot env Scores.init).2 = none

instance (env : Env) : Decidable (env.Readable cfg) := by unfold Env.Readable; infer_instance

theorem Env.Readable.refresh (h : env.Readable cfg) (known : Scores) :
    (refresh cfg.snapshot env known).2 = none := by
  revert h
  unfold Env.Readable Admission.refresh
  split
  · grind
  · exact id

/-- The directories of all waiting calls resolve. -/
def Env.Resolves (env : Env) (calls : Calls) : Prop :=
  ∀ call ∈ calls.queued, (env.resolve call.cwd).isOk = true

instance (env : Env) (calls : Calls) : Decidable (env.Resolves calls) := by
  unfold Env.Resolves; infer_instance

theorem dispatch_ok (hread : env.Readable cfg) (hres : env.Resolves s.calls) :
    ∃ t, dispatch cfg env s = (t, none) := by
  have hrefresh := hread.refresh s.known
  unfold dispatch
  rcases hr : refresh cfg.snapshot env s.known with ⟨known, exn⟩
  rw [hr] at hrefresh
  cases hrefresh
  have hprio : ∀ call ∈ s.calls.queued,
      ∃ w, (do return (← priority cfg env known call, call) : Except Exn (ℚ × Call)) = .ok w := by
    intro call hc
    have hok := hres call hc
    cases hpath : env.resolve call.cwd with
    | error e => rw [hpath] at hok; cases hok
    | ok path => exact ⟨_, by rw [priority, keyFor, hpath]; rfl⟩
  obtain ⟨ranked, hm⟩ := exists_mapM_eq_ok hprio
  have hrank : rank cfg env known s.calls = .ok (ranked.insertionSort Before) := by
    rw [rank, hm]; rfl
  simp only [hrank]
  exact ⟨_, rfl⟩

end CodexRouter.Admission
