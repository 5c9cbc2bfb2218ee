import CodexRouter.Admission.Dispatch
import CodexRouter.Admission.Refresh
import CodexRouter.Admission.Settled
import CodexRouter.LocalScheduler.Choice
import CodexRouter.LocalScheduler.Importance

set_option autoImplicit false

/-! # The service and the local scheduler choose the same call

The local scheduler scans its waiting list and compares pairwise with the importance scorer; the
service sorts by priority. Both read the same snapshot and see the same files. The local scheduler
compares a directory that does not exist as it is written, the service after resolving what exists
of it. Where that makes no difference, both choose the call with the most points, the earliest
among equals.
-/

namespace CodexRouter.Admission

open CodexRouter.Lib
open CodexRouter.LocalScheduler (Waiter TaskFeatures Snapshot ImportanceState Scheduler components
  located importanceScorer Ahead)

/-! ## One situation, seen from both sides -/

/-- How the two processes find a directory: `canonicalize` fails for one that does not exist,
`resolve` goes on with the rest of the path. -/
structure Files where
  canonicalize : String → Option Path
  resolve : String → Except Exn Path
  agree : ∀ p path, canonicalize p = some path → resolve p = .ok path

/-- The directory exists, or resolves to the path as written. -/
def Files.Settled (files : Files) (p : String) : Prop :=
  files.canonicalize p ≠ none ∨ files.resolve p = .ok (components p)

/-- A waiting call, with its channel in the local scheduler and its connection to the service. -/
structure WaitingCall where
  identity : Identity
  cwd : String
  tool : String
  since : Nat
  grant : Nat
  writer : Nat

def WaitingCall.features (c : WaitingCall) : TaskFeatures := ⟨c.cwd, c.tool, c.since⟩

def WaitingCall.toWaiter (c : WaitingCall) : Waiter :=
  { key := ⟨c.identity.thread_id, c.identity.turn_id, c.identity.call_id⟩
    features := c.features
    grant := c.grant }

def WaitingCall.toCall (c : WaitingCall) : Call :=
  { identity := c.identity
    cwd := c.cwd
    tool := c.tool
    writer := c.writer
    queued_at := (c.since : ℚ) / 10 ^ 9
    state := .queued }

/-- The snapshot file, the directories and the waiting calls at one time, in nanoseconds. -/
structure Scene where
  doc : Json
  length : Nat
  files : Files
  now : Nat
  calls : List WaitingCall
  distinct : (calls.map WaitingCall.since).Nodup
  arrived : ∀ c ∈ calls, c.since ≤ now

namespace Scene

/-- What the local scorer finds, with the snapshot that it holds. -/
def scorerState (scene : Scene) (held : Snapshot) : ImportanceState :=
  { snapshot := held
    file := some scene.doc
    canonicalize := scene.files.canonicalize
    now := scene.now }

/-- What a dispatch of the service finds. -/
def env (scene : Scene) : Env :=
  { snapshot := .ok ⟨scene.length, .ok scene.doc⟩
    resolve := scene.files.resolve
    monotonic := (scene.now : ℚ) / 10 ^ 9 }

/-- The directories that the bindings of the file name. -/
def boundDirectories (scene : Scene) : List String :=
  (((scene.doc.get? "bindings").bind Json.arr?).getD []).filterMap fun item =>
    (item.get? "cwd").bind Json.str?

/-- Both sides accept the snapshot in the place of what they hold. -/
structure Accepted (scene : Scene) (held : Snapshot) (known : Scores) (snapshot : Snapshot)
    (scores : Scores) : Prop where
  loaded : LocalScheduler.load scene.files.canonicalize scene.doc = some snapshot
  newer : held.version ≤ snapshot.version
  read : loadSnapshot scene.env = .ok scores
  newer' : known.version ≤ scores.version

end Scene

/-! ## The score of a directory -/

/-- `score` is that of the longest bound directory at or above the path, `50` if there is none or
its key has no score. -/
def ScoreOf (snapshot : Snapshot) (path : Path) (score : ℚ) : Prop :=
  (∃ b ∈ snapshot.bindings, b.1 <+: path ∧
      (∀ b' ∈ snapshot.bindings, b'.1 <+: path → b'.1.length ≤ b.1.length) ∧
        score = (snapshot.get b.2).getD 50) ∨
    (∀ b ∈ snapshot.bindings, ¬ b.1 <+: path) ∧ score = 50

/-- The call has the most points, and of the calls with as many it came first. -/
def Foremost (rate : ℚ) (now : Nat) (score : WaitingCall → ℚ) (calls : List WaitingCall)
    (c : WaitingCall) : Prop :=
  let points := fun c : WaitingCall => score c + rate * (((now : ℚ) - c.since) / 10 ^ 9)
  ∀ d ∈ calls, d ≠ c → points d < points c ∨ points d = points c ∧ c.since < d.since

variable {snapshot : Snapshot} {path : Path} {files : Files} {value : Json} {c : WaitingCall}

/-- Of two bindings with a directory at or above one path, both longest, there is only one. -/
theorem ScoreOf.unique {score score' : ℚ} (hnodup : (snapshot.bindings.map Prod.fst).Nodup)
    (h : ScoreOf snapshot path score) (h' : ScoreOf snapshot path score') : score = score' := by
  grind [List.prefix_iff_eq_take, List.inj_on_of_nodup_map, ScoreOf]

/-- What a scan for a longest path finds, whatever it does with equally long ones. -/
structure IsLongest (found : List (Path × String)) (best : Option (Path × String)) : Prop where
  empty : best = none → found = []
  longest : ∀ b, best = some b → b ∈ found ∧ ∀ b' ∈ found, b'.1.length ≤ b.1.length

theorem IsLongest.concat {found : List (Path × String)} {b b' : Path × String}
    (h : IsLongest found (some b')) :
    (b'.1.length ≤ b.1.length → IsLongest (found ++ [b]) (some b)) ∧
      (b.1.length ≤ b'.1.length → IsLongest (found ++ [b]) (some b')) := by
  obtain ⟨hmem, hall⟩ := h.longest b' rfl
  constructor
  · intro hle
    refine ⟨fun hnone => absurd hnone (by simp), fun c hc => ?_⟩
    cases hc
    refine ⟨by simp, fun d hd => ?_⟩
    rcases List.mem_append.mp hd with hd | hd
    · exact (hall d hd).trans hle
    · rw [List.mem_singleton.mp hd]
  · intro hle
    refine ⟨fun hnone => absurd hnone (by simp), fun c hc => ?_⟩
    cases hc
    refine ⟨List.mem_append_left _ hmem, fun d hd => ?_⟩
    rcases List.mem_append.mp hd with hd | hd
    · exact hall d hd
    · rw [List.mem_singleton.mp hd]
      exact hle

theorem isLongest_nil : IsLongest [] none := ⟨fun _ => rfl, fun _ h => by cases h⟩

theorem isLongest_singleton (b : Path × String) : IsLongest [b] (some b) := by
  refine ⟨fun h => absurd h (by simp), fun c hc => ?_⟩
  cases hc
  exact ⟨by simp, fun d hd => by rw [List.mem_singleton.mp hd]⟩

/-- A loop that keeps the longer of two, either one where they are equally long. -/
theorem isLongest_foldl {f : Option (Path × String) → Path × String → Option (Path × String)}
    (hnone : ∀ b, f none b = some b)
    (hsome : ∀ b' b, (f (some b') b = some b ∧ b'.1.length ≤ b.1.length) ∨
      (f (some b') b = some b' ∧ b.1.length ≤ b'.1.length))
    (found : List (Path × String)) : IsLongest found (found.foldl f none) := by
  induction found using List.reverseRecOn with
  | nil => exact isLongest_nil
  | append_singleton found b ih =>
    rw [List.foldl_append, List.foldl_cons, List.foldl_nil]
    generalize found.foldl f none = best at ih
    cases best with
    | none =>
      rw [ih.empty rfl, hnone]
      exact isLongest_singleton b
    | some b' =>
      rcases hsome b' b with ⟨heq, hle⟩ | ⟨heq, hle⟩
      · rw [heq]
        exact ih.concat.1 hle
      · rw [heq]
        exact ih.concat.2 hle

/-- The service keeps the first of the longest. -/
theorem isLongest_longest (found : List (Path × String)) : IsLongest found (longest found) := by
  refine isLongest_foldl (fun _ => rfl) (fun b' b => ?_) found
  simp only
  split
  · rename_i hlt
    exact Or.inl ⟨rfl, hlt.le⟩
  · rename_i hle
    exact Or.inr ⟨rfl, not_lt.mp hle⟩

/-- The local scorer keeps the last of the longest. -/
theorem isLongest_lastLongest (found : List (Path × String)) :
    IsLongest found (ImportanceState.lastLongest found) := by
  refine isLongest_foldl (fun _ => rfl) (fun b' b => ?_) found
  simp only
  split
  · rename_i hle
    exact Or.inl ⟨rfl, hle⟩
  · rename_i hlt
    exact Or.inr ⟨rfl, (not_le.mp hlt).le⟩

theorem scoreOf_of_isLongest {best : Option (Path × String)}
    (h : IsLongest (snapshot.bindings.filter fun b => b.1.isPrefixOf path) best) :
    ScoreOf snapshot path ((best.bind fun b => snapshot.get b.2).getD 50) := by
  have hfound : ∀ b, b ∈ (snapshot.bindings.filter fun b => b.1.isPrefixOf path) ↔
      b ∈ snapshot.bindings ∧ b.1 <+: path := by grind
  cases best with
  | none =>
    refine Or.inr ⟨fun b hb hpath => ?_, rfl⟩
    have hmem := (hfound b).mpr ⟨hb, hpath⟩
    rw [h.empty rfl] at hmem
    cases hmem
  | some b => grind [ScoreOf, cases IsLongest]

/-! ## Both sides read the same snapshot -/

theorem located_of_settled {p : String} (h : files.Settled p) :
    files.resolve p = .ok (located files.canonicalize p) := by
  unfold located
  cases hp : files.canonicalize p with
  | some path => exact files.agree p path hp
  | none => grind [Files.Settled]

theorem loadScore_of_parseScore {q : ℚ} (h : parseScore value = .ok q) :
    LocalScheduler.loadScore value = some q := by
  obtain ⟨rfl | ⟨n, rfl, rfl⟩, hrange⟩ := parseScore_ok h
  · simp [LocalScheduler.loadScore, LocalScheduler.asF64, hrange]
  · simp [LocalScheduler.loadScore, LocalScheduler.asF64, hrange]

/-- One binding, through the three passes of `refresh`. -/
theorem loadBinding_of_passes {item : Json} {cwd cwd' key : String}
    (hparse : parseBinding item = .ok (cwd, value))
    (hcheck : checkBinding (cwd, value) = .ok (cwd', key))
    (hresolve : files.resolve cwd' = .ok path)
    (hsettled : ∀ p, (item.get? "cwd").bind Json.str? = some p → files.Settled p) :
    LocalScheduler.loadBinding files.canonicalize item = some (path, key) := by
  obtain ⟨c, hc, hparse⟩ := bind_eq_ok_iff.mp hparse
  split at hparse
  · rename_i text
    obtain ⟨v, hv, hparse⟩ := bind_eq_ok_iff.mp hparse
    cases hparse
    obtain ⟨heq, habsolute⟩ := checkBinding_ok hcheck
    cases heq
    have hcwd := subscript_ok hc
    have hkey := subscript_ok hv
    have hlocated := located_of_settled (hsettled _ (by rw [hcwd]; rfl))
    rw [hresolve] at hlocated
    cases hlocated
    simp [LocalScheduler.loadBinding, hcwd, hkey, Json.str?, habsolute]
  · cases hparse

theorem loadBinding_of_mapM {items : List Json} {parsed : List (String × Json)}
    {checked : List (String × String)} {bindings : List (Path × String)}
    (hparsed : List.Forall₂ (fun item b => parseBinding item = .ok b) items parsed)
    (hchecked : List.Forall₂ (fun b c => checkBinding b = .ok c) parsed checked)
    (hresolved : List.Forall₂ (fun (c : String × String) b =>
      (do return (← files.resolve c.1, c.2) : Except Exn (Path × String)) = .ok b) checked bindings)
    (hsettled : ∀ item ∈ items, ∀ p, (item.get? "cwd").bind Json.str? = some p →
      files.Settled p) :
    List.Forall₂ (fun item b => LocalScheduler.loadBinding files.canonicalize item = some b)
      items bindings := by
  induction hparsed generalizing checked bindings with
  | nil =>
    cases hchecked
    cases hresolved
    exact .nil
  | cons hparse _ ih =>
    cases hchecked with
    | cons hcheck hchecked =>
      cases hresolved with
      | cons hresolve hresolved =>
        obtain ⟨path, hpath, hresolve⟩ := bind_eq_ok_iff.mp hresolve
        cases hresolve
        refine .cons ?_ (ih hchecked hresolved fun item hitem =>
          hsettled item (List.mem_cons_of_mem _ hitem))
        exact loadBinding_of_passes hparse hcheck hpath
          (hsettled _ (List.mem_cons_self ..))

theorem foldlM_addBinding {canonicalize : String → Option Path} (items : List Json) :
    ∀ bindings found : List (Path × String),
      items.foldlM (LocalScheduler.addBinding canonicalize) bindings = some found →
        (bindings.map Prod.fst).Nodup →
          (found.map Prod.fst).Nodup ∧ ∃ new, found = bindings ++ new ∧
            List.Forall₂ (fun item b => LocalScheduler.loadBinding canonicalize item = some b)
              items new := by
  induction items with
  | nil =>
    intro bindings found h hnodup
    cases h
    exact ⟨hnodup, [], (List.append_nil _).symm, .nil⟩
  | cons item items ih =>
    intro bindings found h hnodup
    obtain ⟨next, hnext, h⟩ := Option.bind_eq_some_iff.mp h
    obtain ⟨b, hb, hnext⟩ := Option.bind_eq_some_iff.mp hnext
    split at hnext
    · cases hnext
    · rename_i hnew
      cases hnext
      have hnodup' : ((bindings ++ [b]).map Prod.fst).Nodup := by grind
      obtain ⟨hfound, new, hnew, hall⟩ := ih _ found h hnodup'
      exact ⟨hfound, b :: new, by rw [hnew, List.append_assoc]; rfl, .cons hb hall⟩

/-- Lists made of one list by two functions that agree where both succeed. -/
theorem forall₂_eq {α β : Type} {R S : α → β → Prop} {l : List α} {xs ys : List β}
    (hR : List.Forall₂ R l xs) (hS : List.Forall₂ S l ys)
    (hsame : ∀ a ∈ l, ∀ x y, R a x → S a y → x = y) : xs = ys := by
  induction hR generalizing ys with
  | nil =>
    cases hS
    rfl
  | cons hx _ ih =>
    cases hS with
    | cons hy hrest =>
      rw [hsame _ (List.mem_cons_self ..) _ _ hx hy,
        ih hrest fun a ha => hsame a (List.mem_cons_of_mem _ ha)]

theorem Scene.Accepted.same {scene : Scene} {held : Snapshot} {known scores : Scores}
    (h : scene.Accepted held known snapshot scores)
    (hsettled : ∀ p ∈ scene.boundDirectories, scene.files.Settled p) :
    scores.scores = snapshot.scores ∧ scores.bindings = snapshot.bindings ∧
      (snapshot.bindings.map Prod.fst).Nodup := by
  -- the local side
  have hloaded := h.loaded
  obtain ⟨version, -, hloaded⟩ := Option.bind_eq_some_iff.mp hloaded
  obtain ⟨members, hmembers, hloaded⟩ := Option.bind_eq_some_iff.mp hloaded
  obtain ⟨loaded, hscores, hloaded⟩ := Option.bind_eq_some_iff.mp hloaded
  obtain ⟨items, hitems, hloaded⟩ := Option.bind_eq_some_iff.mp hloaded
  obtain ⟨bindings, hbindings, hloaded⟩ := Option.bind_eq_some_iff.mp hloaded
  cases hloaded
  obtain ⟨hnodup, new, hnew, hbindings⟩ :=
    foldlM_addBinding items [] bindings hbindings List.nodup_nil
  subst hnew
  -- the service
  obtain ⟨file, value, members', items', parsed, checked, hfile, hvalue, hshape, hscores', hparsed,
    hchecked, hresolved, -⟩ := loadSnapshot_ok h.read
  cases hfile
  cases hvalue
  obtain ⟨-, hmembers', hitems'⟩ := parseShape_ok hshape
  rw [hmembers'] at hmembers
  cases hmembers
  have hdirectories : scene.boundDirectories = items'.filterMap fun item =>
      (item.get? "cwd").bind Json.str? := by
    unfold Scene.boundDirectories
    rw [hitems']
    rfl
  rw [hitems'] at hitems
  cases hitems
  refine ⟨?_, ?_, hnodup⟩
  · refine forall₂_eq (mapM_eq_ok_iff.mp hscores') (mapM_eq_some_iff.mp hscores) ?_
    intro m _ x y hx hy
    obtain ⟨q, hq, hx⟩ := bind_eq_ok_iff.mp hx
    cases hx
    rw [loadScore_of_parseScore hq] at hy
    exact Option.some.inj hy
  · have hpasses := loadBinding_of_mapM (mapM_eq_ok_iff.mp hparsed) (mapM_eq_ok_iff.mp hchecked)
      (mapM_eq_ok_iff.mp hresolved) fun item hitem p hp =>
        hsettled p (hdirectories ▸ List.mem_filterMap.mpr ⟨item, hitem, hp⟩)
    refine forall₂_eq hpasses hbindings fun item _ x y hx hy => ?_
    rw [hx] at hy
    exact Option.some.inj hy

/-! ## The choice -/

/-- Both sides choose the call with the most points, the earliest among equals: the local scheduler
picks it from `waiting`, and the service grants it and changes no other call. With no call waiting,
neither chooses one. -/
structure SameChoice (scene : Scene) (snapshot : Snapshot) (rate : ℚ) (waiting : List Waiter)
    (picked : Option Nat) (before : Calls) (dispatched : System × Option Exn) : Prop where
  quiet : dispatched.2 = none
  nobody : scene.calls = [] →
    picked = none ∧ ∀ key, dispatched.1.calls.get? key = before.get? key
  chosen : scene.calls ≠ [] → ∃ c ∈ scene.calls, ∃ score : WaitingCall → ℚ,
    (∀ d ∈ scene.calls, ScoreOf snapshot (located scene.files.canonicalize d.cwd) (score d)) ∧
      Foremost rate scene.now score scene.calls c ∧
      (∃ index, picked = some index ∧ waiting[index]? = some c.toWaiter) ∧
      ∀ key, dispatched.1.calls.get? key =
        if key = c.identity then some { c.toCall with state := .granted } else before.get? key

variable {scene : Scene} {held snapshot : Snapshot} {known scores : Scores} {cfg : Config}

theorem Scene.Accepted.refresh_scorer (h : scene.Accepted held known snapshot scores) :
    (scene.scorerState held).refresh = scene.scorerState snapshot := by
  unfold ImportanceState.refresh Scene.scorerState
  simp only [Option.bind_some, h.loaded, ge_iff_le, h.newer, if_true]

theorem Scene.Accepted.refresh_service (h : scene.Accepted held known snapshot scores) :
    refresh true scene.env known = (scores, none) := by
  unfold refresh
  simp only [if_true, h.read, h.newer']

theorem scoreOf_importance (c : WaitingCall) :
    ScoreOf snapshot (located scene.files.canonicalize c.cwd)
      ((scene.scorerState snapshot).importance c.features) :=
  scoreOf_of_isLongest (isLongest_lastLongest _)

theorem points_features (hc : c ∈ scene.calls) (rate : ℚ) :
    (scene.scorerState snapshot).points rate c.features =
      (scene.scorerState snapshot).importance c.features
        + rate * (((scene.now : ℚ) - c.since) / 10 ^ 9) := by
  show _ + rate * (((scene.now - c.since : Nat) : ℚ) / 10 ^ 9) = _
  rw [Nat.cast_sub (scene.arrived c hc)]

theorem Scores.get_map_snd (scores : Scores) (hsame : scores.scores = snapshot.scores)
    (best : Option (Path × String)) :
    scores.get (best.map Prod.snd) = (best.bind fun b => snapshot.get b.2).getD 50 := by
  cases best with
  | none => rfl
  | some b =>
    show ((scores.scores.find? fun e => e.1 = b.2).map Prod.snd).getD 50 = _
    rw [hsame]
    rfl

/-- The service gives a call the points that the local scorer gives it. -/
theorem priority_toCall (hscores : scores.scores = snapshot.scores)
    (hbindings : scores.bindings = snapshot.bindings)
    (hnodup : (snapshot.bindings.map Prod.fst).Nodup) (hc : c ∈ scene.calls)
    (hsettled : scene.files.Settled c.cwd) :
    priority cfg scene.env scores c.toCall =
      .ok ((scene.scorerState snapshot).points cfg.rate c.features) := by
  have hresolve : scene.env.resolve c.toCall.cwd
      = .ok (located scene.files.canonicalize c.cwd) := located_of_settled hsettled
  have hservice := scoreOf_of_isLongest (isLongest_longest (snapshot.bindings.filter fun b =>
    b.1.isPrefixOf (located scene.files.canonicalize c.cwd)))
  have hlocal : ScoreOf snapshot (located scene.files.canonicalize c.cwd)
      ((scene.scorerState snapshot).importance c.features) := scoreOf_importance c
  unfold priority keyFor
  rw [hresolve, points_features hc,
    ← ScoreOf.unique hnodup hservice hlocal,
    ← Scores.get_map_snd scores hscores, ← hbindings]
  show Except.ok (_ + cfg.rate * ((scene.now : ℚ) / 10 ^ 9 - (c.since : ℚ) / 10 ^ 9)) = _
  rw [sub_div]

section

variable {calls : Calls} (hqueued : calls.queued.Perm (scene.calls.map WaitingCall.toCall))
  (hpriority : ∀ c ∈ scene.calls, priority cfg scene.env scores c.toCall =
    .ok ((scene.scorerState snapshot).points cfg.rate c.features))

include hqueued hpriority

/-- The service can rank the waiting calls. -/
theorem exists_rank :
    ∃ ranked, rank cfg scene.env scores calls = .ok ranked := by
  have heach : ∀ call ∈ calls.queued, ∃ w, (do
      return (← priority cfg scene.env scores call, call) : Except Exn (ℚ × Call)) = .ok w := by
    intro call hcall
    obtain ⟨c, hc, rfl⟩ := List.mem_map.mp (hqueued.mem_iff.mp hcall)
    exact ⟨_, by rw [hpriority c hc]; rfl⟩
  obtain ⟨ranked, hm⟩ := exists_mapM_eq_ok heach
  exact ⟨_, by rw [rank, hm]; rfl⟩

/-- The head of the ranking is ahead of every other call. Arrivals are distinct, so that none is
its equal. -/
theorem ahead_of_rank {best : ℚ × Call} {others : List (ℚ × Call)}
    (hranked : rank cfg scene.env scores calls = .ok (best :: others)) :
    ∃ c ∈ scene.calls, best.2 = c.toCall ∧ ∀ d ∈ scene.calls, d ≠ c →
      Ahead cfg.rate (scene.scorerState snapshot) c.features d.features := by
  obtain ⟨hperm, hpoints, hsorted⟩ := rank_spec hranked
  have hall := hperm.trans hqueued
  have hpoints : ∀ w ∈ best :: others, ∀ d ∈ scene.calls, w.2 = d.toCall →
      w.1 = (scene.scorerState snapshot).points cfg.rate d.features := by grind
  obtain ⟨c, hc, hbest⟩ := List.mem_map.mp (hall.mem_iff.mp (List.mem_cons_self ..))
  refine ⟨c, hc, hbest.symm, fun d hd hne => ?_⟩
  have hsince : c.since ≠ d.since := fun heq =>
    hne (List.inj_on_of_nodup_map scene.distinct hd hc heq.symm)
  obtain ⟨w, hw, hwd⟩ := List.mem_map.mp (hall.mem_iff.mpr (List.mem_map_of_mem hd))
  have hbefore : Before best w := by
    rcases List.mem_cons.mp hw with rfl | hw
    · have hq : (c.since : ℚ) / 10 ^ 9 = (d.since : ℚ) / 10 ^ 9 :=
        congrArg Call.queued_at (hbest.trans hwd)
      rw [div_left_inj' (by norm_num)] at hq
      exact absurd (Nat.cast_injective hq) hsince
    · exact (List.pairwise_cons.mp hsorted).1 w hw
  unfold Before at hbefore
  rw [hpoints best (List.mem_cons_self ..) c hc hbest.symm, hpoints w hw d hd hwd, ← hbest,
    hwd] at hbefore
  rcases hbefore with hlt | ⟨heq, hle⟩
  · exact Or.inl hlt
  · refine Or.inr ⟨heq, ?_⟩
    have hle : (c.since : ℚ) / 10 ^ 9 ≤ (d.since : ℚ) / 10 ^ 9 := hle
    rw [div_le_div_iff_of_pos_right (by norm_num)] at hle
    exact lt_of_le_of_ne (Nat.cast_le.mp hle) hsince

end

/-- The scan ends at the call that is ahead of all others. -/
theorem pick_of_ahead (haccepted : scene.Accepted held known snapshot scores) (rate : ℚ)
    (slots : Nat) {waiting : List Waiter}
    (hwaiting : waiting.Perm (scene.calls.map WaitingCall.toWaiter)) (hc : c ∈ scene.calls)
    (hahead : ∀ d ∈ scene.calls, d ≠ c →
      Ahead rate (scene.scorerState snapshot) c.features d.features) :
    ∃ index,
      ((Scheduler.mk (importanceScorer rate) slots).pick (scene.scorerState held) waiting).1
        = some index ∧ waiting[index]? = some c.toWaiter := by
  have hrefresh : (importanceScorer rate).refresh (scene.scorerState held)
      = scene.scorerState snapshot := haccepted.refresh_scorer
  have hmem : c.toWaiter ∈ waiting := hwaiting.mem_iff.mpr (List.mem_map_of_mem hc)
  have hprefers : ∀ first second, (Scheduler.mk (importanceScorer rate) slots).prefers
      ((importanceScorer rate).refresh (scene.scorerState held)) first second
        = (decide (Ahead rate (scene.scorerState snapshot) first second),
          (importanceScorer rate).refresh (scene.scorerState held)) := by
    intro first second
    rw [hrefresh]
    exact LocalScheduler.prefers_importance rfl _ first second
  obtain ⟨index, hindex, w, hw, hunbeaten⟩ := Scheduler.pick_unbeaten hprefers
    (fun _ _ _ => Ahead.trans) (Ahead.irrefl _ _) (List.ne_nil_of_mem hmem)
  refine ⟨index, hindex, ?_⟩
  obtain ⟨d, hd, rfl⟩ := List.mem_map.mp (hwaiting.mem_iff.mp (List.mem_of_getElem? hw))
  by_cases hdc : d = c
  · rw [hw, hdc]
  · exact absurd (hahead d hd hdc) (hunbeaten c.toWaiter hmem)

/-- **The local scheduler and the service choose the same call**, whatever the order of the waiting
list, when one slot of the service is free. -/
theorem schedulers_choose_same (scene : Scene) (held snapshot : Snapshot) (cfg : Config)
    (slots : Nat) (s : System) (scores : Scores) (waiting : List Waiter)
    (hcfg : cfg.snapshot = true)
    (haccepted : scene.Accepted held s.known snapshot scores)
    (hwaiting : waiting.Perm (scene.calls.map WaitingCall.toWaiter))
    (hqueued : s.calls.queued.Perm (scene.calls.map WaitingCall.toCall))
    (hfree : s.calls.granted + 1 = cfg.slots)
    (hsettled : ∀ p ∈ scene.boundDirectories ++ scene.calls.map WaitingCall.cwd,
      scene.files.Settled p) :
    SameChoice scene snapshot cfg.rate waiting
      ((Scheduler.mk (importanceScorer cfg.rate) slots).pick (scene.scorerState held) waiting).1
      s.calls (dispatch cfg scene.env s) := by
  obtain ⟨hscores, hbindings, hnodup⟩ := haccepted.same fun p hp =>
    hsettled p (List.mem_append_left _ hp)
  have hpriority : ∀ c ∈ scene.calls, priority cfg scene.env scores c.toCall =
      .ok ((scene.scorerState snapshot).points cfg.rate c.features) := fun c hc =>
    priority_toCall hscores hbindings hnodup hc
      (hsettled c.cwd (List.mem_append_right _ (List.mem_map_of_mem hc)))
  obtain ⟨ranked, hranked⟩ := exists_rank hqueued hpriority
  have hdispatch : dispatch cfg scene.env s =
      (((ranked.map Prod.snd).take 1).foldl grant { s with known := scores }, none) := by
    have hone : cfg.slots - s.calls.granted = 1 := by omega
    unfold dispatch
    rw [hcfg, haccepted.refresh_service]
    simp only [hranked, hone]
  have hall := (rank_spec hranked).1.trans hqueued
  refine ⟨by rw [hdispatch], fun hnone => ?_, fun hsome => ?_⟩
  · rw [hnone] at hwaiting hall
    refine ⟨by rw [hwaiting.eq_nil]; rfl, fun key => ?_⟩
    rw [hdispatch, hall.eq_nil]
    rfl
  · cases ranked with
    | nil => exact absurd (List.map_eq_nil_iff.mp hall.symm.eq_nil) hsome
    | cons best others =>
      obtain ⟨c, hc, hbest, hahead⟩ := ahead_of_rank hqueued hpriority hranked
      refine ⟨c, hc, fun d => (scene.scorerState snapshot).importance d.features,
        fun d _ => scoreOf_importance d, fun d hd hne => ?_,
        pick_of_ahead haccepted cfg.rate slots hwaiting hc hahead, fun key => ?_⟩
      · have h := hahead d hd hne
        unfold Ahead at h
        rw [points_features hc, points_features hd] at h
        exact h
      · rw [hdispatch]
        show (s.calls.insert { best.2 with state := .granted }).get? key = _
        rw [hbest]
        exact Calls.get?_insert ..

/-! ## A directory that does not exist -/

/-- A waiting call in a directory, alone on its connection. -/
def waitingIn (cwd : String) (since : Nat) : WaitingCall :=
  { identity := ⟨cwd, "thread", "turn", "call"⟩
    cwd, since
    tool := "shell"
    grant := since
    writer := since }

/-- One directory bound to a key with score 90. -/
def boundTo (cwd : String) : Json :=
  .obj [("fit_version", .int 1), ("scores", .obj [("a", .int 90)]),
    ("bindings", .arr [.obj [("cwd", .str cwd), ("key", .str "a")]])]

/-- The calls as the service holds them, the only slot being free. -/
def queuedCalls (calls : List WaitingCall) : System :=
  { System.init with calls := calls.foldl (fun cs c => cs.insert c.toCall) Calls.empty }

/-- Two calls in directories that exist, the bound one of the later call. -/
def existingScene : Scene where
  doc := boundTo "/real/x"
  length := 100
  files := ⟨fun p => some (components p), fun p => .ok (components p), fun _ _ h => by
    rw [← Option.some.inj h]⟩
  now := 3
  calls := [waitingIn "/other" 1, waitingIn "/real/x" 2]
  distinct := by decide
  arrived := by decide

theorem schedulers_choose_same_existing :
    SameChoice existingScene ⟨1, [("a", 90)], [(["/", "real", "x"], "a")]⟩ 0
      [(waitingIn "/real/x" 2).toWaiter, (waitingIn "/other" 1).toWaiter]
      ((Scheduler.mk (importanceScorer 0) 1).pick
        (existingScene.scorerState ⟨0, [], []⟩)
        [(waitingIn "/real/x" 2).toWaiter, (waitingIn "/other" 1).toWaiter]).1
      (queuedCalls existingScene.calls).calls
      (dispatch oneSlot existingScene.env (queuedCalls existingScene.calls)) :=
  schedulers_choose_same existingScene ⟨0, [], []⟩ ⟨1, [("a", 90)], [(["/", "real", "x"], "a")]⟩
    oneSlot 1 (queuedCalls existingScene.calls) ⟨1, [("a", 90)], [(["/", "real", "x"], "a")]⟩ _ rfl
    ⟨by decide +kernel, by decide, by decide +kernel, by decide⟩ (by decide +kernel)
    (by decide +kernel) (by decide +kernel) (fun _ _ => Or.inl (by simp [existingScene]))

/-- `/link` is a link to `/real`, in which there is no `x`. The service finds the binding of the
later call, the local scorer does not. -/
def missingScene : Scene where
  doc := boundTo "/real/x"
  length := 100
  files := ⟨fun _ => none, fun p => .ok (components (if p = "/link/x" then "/real/x" else p)),
    fun _ _ h => by cases h⟩
  now := 3
  calls := [waitingIn "/other" 1, waitingIn "/link/x" 2]
  distinct := by decide
  arrived := by decide

theorem missing_directory_chosen_by_service_only :
    missingScene.Accepted ⟨0, [], []⟩ Scores.init ⟨1, [("a", 90)], [(["/", "real", "x"], "a")]⟩
        ⟨1, [("a", 90)], [(["/", "real", "x"], "a")]⟩ ∧
      ((Scheduler.mk (importanceScorer 0) 1).pick (missingScene.scorerState ⟨0, [], []⟩)
        (missingScene.calls.map WaitingCall.toWaiter)).1 = some 0 ∧
      ((dispatch oneSlot missingScene.env (queuedCalls missingScene.calls)).1.calls.values.map
        fun call => call.state) = [.queued, .granted] :=
  ⟨⟨by decide +kernel, by decide, by decide +kernel, by decide⟩, by decide +kernel,
    by decide +kernel⟩

end CodexRouter.Admission
