import Mathlib.Data.List.Chain
import Mathlib.Data.List.Destutter
import RobotCtl.Wifi.Exclusion

/-! # What the supervisor announces

The hook hears of every change of the state, and systemd of the first state that
is settled. Both are told only where an iteration of the loop ends, so what they
hear follows from the states that a run goes through.
-/

namespace RobotCtl.Wifi

open Text Conf Prog

/-- The changes of the state that a run can make, and the one state that it can enter again. -/
inductive Edge : State → State → Prop
  | connect : Edge .tryClient .clientUp
  | fallBack : Edge .tryClient .fallbackAp
  | lose : Edge .clientUp .tryClient
  | retry : Edge .fallbackAp .tryClient
  | hold : Edge .fallbackAp .fallbackAp

/-- A run of the supervisor to a head of its loop, with the states it went through. -/
inductive Visits (pid : ℕ) (paths : Paths) (tuning : SuperviseTuning) :
    List (Event Sys) → List State → Head → Prop
  | opening {t : List (Event Sys)} : Returns (opening paths).run t (.ok ()) →
      Visits pid paths tuning t [.tryClient] .init
  | iterate {t t' : List (Event Sys)} {states : List State} {head head' : Head} :
      Visits pid paths tuning t states head →
      Returns (iterate pid paths tuning head) t' (.inl head') →
      Visits pid paths tuning (t ++ t') (states ++ [head'.state]) head'

/-- The state that the arguments of the hook name. -/
def namedState (args : List Str) : Option State :=
  if args = ["try-client".toList] then some .tryClient
  else if args = ["client-up".toList] then some .clientUp
  else if args = ["fallback-ap".toList] then some .fallbackAp
  else none

/-- The state that a call tells the hook. -/
def toldState (hook : Str) : SysOp → Option State
  | .spawn program args => if program = hook then namedState args else none
  | _ => none

/-- The states of which the hook was notified, in order. -/
def notifications (hook : Str) (t : List (Event Sys)) : List State :=
  t.filterMap fun e => toldState hook e.1

/-- The call has to do with readiness. -/
def Readies : SysOp → Prop
  | .envVar _ | .sendTo _ _ => True
  | _ => False

/-- The datagram that says that the unit is ready, and in which state. -/
def readiness : State → Str
  | .tryClient => "READY=1\nSTATUS=WiFi settled: TryClient\n".toList
  | .clientUp => "READY=1\nSTATUS=WiFi settled: ClientUp\n".toList
  | .fallbackAp => "READY=1\nSTATUS=WiFi settled: FallbackAp\n".toList

/-- systemd is told that the unit is ready in this state, if it asked for that at the path of a
socket. -/
inductive Announcement (state : State) : List (Event Sys) → Prop
  | sent {socket : Str} (r : Io Unit) : socket ≠ [] → socket.head? ≠ some '@' →
      Announcement state
        [⟨.envVar "NOTIFY_SOCKET".toList, some socket⟩, ⟨.sendTo socket (readiness state), r⟩]
  | unasked {value : Option Str} :
      (∀ socket, value = some socket → socket = [] ∨ socket.head? = some '@') →
      Announcement state [⟨.envVar "NOTIFY_SOCKET".toList, value⟩]

variable {pid : ℕ} {paths : Paths} {tuning : SuperviseTuning} {hook : Str}
  {t t' : List (Event Sys)} {states : List State} {state next : State} {head head' : Head}
  {s : Supervisor} {o : SysOp}

theorem namedState_hookName (state : State) : namedState [state.hookName] = some state := by
  cases state <;> rfl

theorem namedState_eq_none {args : List Str} (h : ∀ state : State, args ≠ [state.hookName]) :
    namedState args = none := by
  have hTry : args ≠ ["try-client".toList] := h .tryClient
  have hUp : args ≠ ["client-up".toList] := h .clientUp
  have hAp : args ≠ ["fallback-ap".toList] := h .fallbackAp
  rw [namedState, if_neg hTry, if_neg hUp, if_neg hAp]

theorem readyMessage_eq (state : State) : readyMessage state = readiness state := by
  cases state <;> rfl

/-- The runs are those that reach a head of the loop. -/
theorem reaches_iff : Reaches pid paths tuning t head ↔
    ∃ states, Visits pid paths tuning t states head := by
  constructor
  · rintro ⟨t₁, t₂, rfl, h₁, h₂⟩
    induction h₂ with
    | refl =>
      rw [List.append_nil]
      exact ⟨_, .opening h₁⟩
    | step _ hb ih =>
      obtain ⟨states, hv⟩ := ih
      rw [← List.append_assoc]
      exact ⟨_, hv.iterate hb⟩
  · rintro ⟨states, h⟩
    induction h with
    | opening h => exact ⟨_, [], (List.append_nil _).symm, h, .refl _⟩
    | iterate _ hb ih =>
      obtain ⟨t₁, t₂, rfl, h₁, h₂⟩ := ih
      exact ⟨t₁, _, List.append_assoc .., h₁, .step h₂ hb⟩

section Discreet

/-- The call tells nobody the state. -/
def Discreet (paths : Paths) : SysOp → Prop
  | .spawn program args => ∃ r : Radio, r.command paths = (program, args)
  | .envVar _ | .sendTo _ _ => False
  | _ => True

theorem Plain.discreet (h : Plain o) : Discreet paths o := by
  cases o <;> trivial

theorem StationCall.discreet (h : StationCall paths o) : Discreet paths o := by
  cases o with
  | spawn program args => exact ⟨.supplicant, h⟩
  | _ => exact h

theorem Plain.not_readies (h : Plain o) : ¬ Readies o := by
  cases o with
  | envVar name | sendTo socket message => exact h.elim
  | _ => exact id

theorem Discreet.not_readies (h : Discreet paths o) : ¬ Readies o := by
  cases o with
  | envVar name | sendTo socket message => exact h.elim
  | _ => exact id

theorem Discreet.untold (h : Discreet paths o) : toldState hook o = none := by
  cases o with
  | spawn program args =>
    obtain ⟨r, hr⟩ := h
    by_cases hp : program = hook
    · have hne : ∀ state : State, args ≠ [state.hookName] := fun state ha =>
        r.command_ne_hook hook state (by rw [hr, hp, ha])
      rw [toldState, if_pos hp, namedState_eq_none hne]
    · exact if_neg hp
  | _ => rfl

theorem notifications_append (t t' : List (Event Sys)) :
    notifications hook (t ++ t') = notifications hook t ++ notifications hook t' :=
  List.filterMap_append

theorem notifications_discreet (h : ∀ e ∈ t, Discreet paths e.1) : notifications hook t = [] :=
  List.filterMap_eq_nil_iff.mpr fun e he => (h e he).untold

theorem Aside.untold (h : Aside o) : toldState hook o = none := by
  cases o with
  | spawn program args => exact h.elim
  | _ => rfl

theorem notifications_plain (h : ∀ e ∈ t, Plain e.1) : notifications hook t = [] :=
  List.filterMap_eq_nil_iff.mpr fun e he => (h e he).aside.untold

variable {α : Type} {p : Prog Sys α}

theorem uses_discreet (h : p.Uses Plain) : p.Uses (Discreet paths) :=
  h.mono fun _ => Plain.discreet

theorem spawn_discreet (r : Radio) :
    (Daemon.spawn r.program r.program (r.args paths)).run.Uses (Discreet paths) := by
  refine ⟨⟨r, rfl⟩, ?_⟩
  rintro (err | pid) <;> trivial

theorem raiseAp_discreet : (s.raiseAp pid paths).run.Uses (Discreet paths) := by
  obtain ⟨client, _ | ap⟩ := s
  · refine (uses_discreet (load_plain _)).try_bind fun identity => ?_
    refine (uses_discreet (loadApConfig_plain _ _)).try_bind fun config => ?_
    refine Uses.try_bind ?_ fun _ => trivial
    refine (uses_discreet (configure_plain _ _ _)).try_bind fun _ => ?_
    refine (spawn_discreet .dnsmasq).try_bind fun d => ?_
    refine Uses.lift_bind (spawn_discreet .hostapd) fun hostapd => ?_
    cases hostapd with
    | error err => exact (uses_discreet d.stop_plain).lift_bind fun _ => trivial
    | ok hostapd => trivial
  · trivial

/-- No step tells anybody the state. -/
theorem step_discreet : (s.step pid paths tuning state).Uses (Discreet paths) := by
  cases state with
  | tryClient => exact (tryClient_station.mono fun _ => StationCall.discreet).bind fun _ => trivial
  | clientUp => exact (watchClient_station.mono fun _ => StationCall.discreet).bind fun _ => trivial
  | fallbackAp =>
    refine ((stopClient_station s).mono fun _ => StationCall.discreet).bind fun s' =>
      raiseAp_discreet.bind ?_
    rintro (err | s'')
    · trivial
    · refine ⟨trivial, fun started => ⟨fun _ => ?_, fun _ => trivial⟩⟩
      exact (serveRound_station started).mono fun _ => StationCall.discreet

end Discreet

section Edges

variable {x : Supervisor × StepEvent} {e : StepEvent} {s' : Supervisor}

theorem tryAttempts_event {attempts : List ℕ}
    (h : Returns (s.tryAttempts paths tuning attempts) t x) :
    x.2 = .clientConnected ∨ x.2 = .clientFailed ∨ x.2 = .clientConfigMissing := by
  induction attempts generalizing s t with
  | nil =>
    obtain ⟨-, rfl⟩ := returns_ret_iff.mp h
    exact Or.inr (Or.inl rfl)
  | cons attempt rest ih =>
    obtain ⟨r, t₁, t₂, rfl, -, h⟩ := returns_bind_iff.mp h
    rcases r with (path | err) | session
    · obtain ⟨-, rfl⟩ := returns_ret_iff.mp h
      exact Or.inr (Or.inr rfl)
    · obtain ⟨s', t₃, t₄, rfl, -, h⟩ := returns_bind_iff.mp h
      split at h
      · obtain ⟨_, t₅, t₆, rfl, -, h⟩ := returns_bind_iff.mp h
        exact ih h
      · exact ih h
    · obtain ⟨s', t₃, t₄, rfl, -, h⟩ := returns_bind_iff.mp h
      obtain ⟨-, rfl⟩ := returns_ret_iff.mp h
      exact Or.inl rfl

theorem watchClient_event (h : Returns (s.watchClient paths tuning) t x) : x.2 = .linkLost := by
  obtain ⟨s', y, t₁, t₂, hround, hy⟩ := h.loop_exit
  obtain ⟨-, rfl⟩ := returns_ret_iff.mp hy
  obtain ⟨_, t₃, t₄, rfl, -, hround⟩ := returns_bind_iff.mp hround
  obtain ⟨address, t₅, t₆, rfl, -, hround⟩ := returns_bind_iff.mp hround
  cases address with
  | none =>
    obtain ⟨s'', t₇, t₈, rfl, -, hround⟩ := returns_bind_iff.mp hround
    obtain ⟨-, hx⟩ := returns_ret_iff.mp hround
    rw [Sum.inr.inj hx]
  | some address =>
    obtain ⟨-, hx⟩ := returns_ret_iff.mp hround
    cases hx

theorem serveRound_event {started : ℕ}
    (h : Returns (s.serveRound paths tuning started) t (.inr x)) :
    x.2 = .apDied ∨ x.2 = .apRetryDue ∨ x.2 = .apHeld := by
  obtain ⟨_, t₁, t₂, rfl, -, h⟩ := returns_bind_iff.mp h
  obtain ⟨died, t₃, t₄, rfl, -, h⟩ := returns_bind_iff.mp h
  cases died with
  | true =>
    obtain ⟨s', t₅, t₆, rfl, -, h⟩ := returns_bind_iff.mp h
    obtain ⟨-, hx⟩ := returns_ret_iff.mp h
    exact Or.inl (by rw [Sum.inr.inj hx])
  | false =>
    obtain ⟨time, t₅, t₆, rfl, -, h⟩ := returns_bind_iff.mp h
    split at h
    · obtain ⟨-, hx⟩ := returns_ret_iff.mp h
      cases hx
    · obtain ⟨found, t₇, t₈, rfl, -, h⟩ := returns_bind_iff.mp h
      cases found with
      | true =>
        obtain ⟨-, hx⟩ := returns_ret_iff.mp h
        exact Or.inr (Or.inl (by rw [Sum.inr.inj hx]))
      | false =>
        obtain ⟨-, hx⟩ := returns_ret_iff.mp h
        exact Or.inr (Or.inr (by rw [Sum.inr.inj hx]))

theorem serveAp_event (h : Returns (s.serveAp pid paths tuning) t (s', .ok e)) :
    e = .apDied ∨ e = .apRetryDue ∨ e = .apHeld := by
  obtain ⟨s₁, t₁, t₂, rfl, -, h⟩ := returns_bind_iff.mp h
  obtain ⟨r, t₃, t₄, rfl, -, h⟩ := returns_bind_iff.mp h
  cases r with
  | error err =>
    obtain ⟨-, hx⟩ := returns_ret_iff.mp h
    cases hx
  | ok s₂ =>
    obtain ⟨started, t₅, t₆, rfl, -, h⟩ := returns_bind_iff.mp h
    obtain ⟨s₃, y, t₇, t₈, hround, hy⟩ := h.loop_exit
    obtain ⟨-, hx⟩ := returns_ret_iff.mp hy
    obtain ⟨rfl, he⟩ := Prod.mk.inj hx
    rw [Except.ok.inj he]
    exact serveRound_event hround

/-- A step ends with an event that leads along an edge. -/
theorem edge_of_step (h : Returns (s.step pid paths tuning state) t (s', .ok e)) :
    Edge state (nextState state e) := by
  cases state with
  | tryClient =>
    obtain ⟨x, t₁, t₂, rfl, h, hx⟩ := returns_bind_iff.mp h
    obtain ⟨-, hx⟩ := returns_ret_iff.mp hx
    obtain ⟨s₁, t₃, t₄, rfl, -, h⟩ := returns_bind_iff.mp h
    rw [Except.ok.inj (Prod.mk.inj hx).2]
    rcases tryAttempts_event h with he | he | he <;> rw [he]
    · exact .connect
    · exact .fallBack
    · exact .fallBack
  | clientUp =>
    obtain ⟨x, t₁, t₂, rfl, h, hx⟩ := returns_bind_iff.mp h
    obtain ⟨-, hx⟩ := returns_ret_iff.mp hx
    rw [Except.ok.inj (Prod.mk.inj hx).2, watchClient_event h]
    exact .lose
  | fallbackAp =>
    rcases serveAp_event h with rfl | rfl | rfl
    · exact .hold
    · exact .retry
    · exact .hold

end Edges

section Iteration

theorem notifications_told (r : Io ℕ) (t : List (Event Sys)) :
    notifications hook (⟨.spawn hook [state.hookName], r⟩ :: t) =
      state :: notifications hook t := by
  have htold : toldState hook (.spawn hook [state.hookName]) = some state := by
    rw [toldState, if_pos rfl, namedState_hookName]
  exact List.filterMap_cons_some (f := fun e : Event Sys => toldState hook e.1) htold

/-- A notification tells the hook its state, if there is a hook. -/
theorem notifications_notify {u : Unit} (h : Returns (Hook.notify hook state.hookName) t u) :
    notifications hook t = if hook = [] then [] else [state] := by
  rcases Hook.notify_cases hook state.hookName with ⟨hh, hn⟩ | ⟨hh, k, hn, hk⟩
  · rw [hn] at h
    obtain ⟨rfl, -⟩ := returns_ret_iff.mp h
    rw [if_pos hh]
    rfl
  · rw [hn] at h
    obtain ⟨r, t', rfl, h'⟩ := returns_call_iff.mp h
    have hrest : notifications hook t' = [] :=
      notifications_plain fun e he => (hk r).returns h' e he
    rw [if_neg hh, notifications_told, hrest]

theorem not_readies_notify {name : Str} (h : Partial (Hook.notify hook name) t) :
    ∀ e ∈ t, ¬ Readies e.1 := by
  rcases Hook.notify_cases hook name with ⟨-, hn⟩ | ⟨-, k, hn, hk⟩
  · rw [hn] at h
    cases h
    simp
  · rw [hn] at h
    cases h with
    | nil => simp
    | call r h' =>
      refine List.forall_mem_cons.mpr ⟨id, fun e he => ?_⟩
      exact ((hk r).cut h' e he).not_readies

theorem notifications_notifyChange {u : Unit} (h : Returns (notifyChange paths state next) t u) :
    notifications paths.wifiStateHook t =
      if next = state ∨ paths.wifiStateHook = [] then [] else [next] := by
  unfold notifyChange at h
  by_cases hs : next = state
  · rw [if_pos hs] at h
    obtain ⟨rfl, -⟩ := returns_ret_iff.mp h
    rw [if_pos (Or.inl hs)]
    rfl
  · rw [if_neg hs] at h
    rw [notifications_notify h]
    simp [hs]

theorem systemdNotifySocket_eq_some_iff {value : Option Str} {socket : Str} :
    systemdNotifySocket value = some socket ↔
      value = some socket ∧ socket ≠ [] ∧ socket.head? ≠ some '@' := by
  rcases value with _ | _ | ⟨c, rest⟩
  · simp [systemdNotifySocket]
  · constructor
    · intro h
      cases h
    · rintro ⟨h, hne, -⟩
      exact absurd (Option.some.inj h).symm hne
  · rw [systemdNotifySocket]
    split
    · next hc =>
      refine iff_of_false (Option.some_ne_none _).symm ?_
      rintro ⟨h, -, hhead⟩
      rw [← Option.some.inj h, hc] at hhead
      exact hhead rfl
    · next hc =>
      constructor
      · rintro ⟨⟩
        exact ⟨rfl, List.cons_ne_nil _ _, fun h => hc (Option.some.inj h)⟩
      · exact fun h => h.1

theorem systemdNotifySocket_eq_none_iff {value : Option Str} :
    systemdNotifySocket value = none ↔
      ∀ socket, value = some socket → socket = [] ∨ socket.head? = some '@' := by
  rw [Option.eq_none_iff_forall_ne_some]
  refine forall_congr' fun socket => ?_
  rw [ne_eq, systemdNotifySocket_eq_some_iff, not_and, not_and_or, not_not, not_not]

theorem announcement_of_notifyReady {u : Unit} (h : Returns (notifyReady state) t u) :
    Announcement state t := by
  obtain ⟨value, t', rfl, h'⟩ := returns_call_iff.mp h
  rw [ret_bind] at h'
  cases hv : systemdNotifySocket value with
  | none =>
    rw [hv] at h'
    obtain ⟨rfl, -⟩ := returns_ret_iff.mp h'
    exact .unasked (systemdNotifySocket_eq_none_iff.mp hv)
  | some socket =>
    rw [hv] at h'
    obtain ⟨rfl, hne, hhead⟩ := systemdNotifySocket_eq_some_iff.mp hv
    obtain ⟨r, t'', rfl, h''⟩ := returns_call_iff.mp h'
    obtain ⟨rfl, -⟩ := returns_ret_iff.mp h''
    rw [readyMessage_eq]
    exact .sent r hne hhead

theorem Announcement.notifications_eq (h : Announcement state t) : notifications hook t = [] := by
  cases h with
  | sent r hne hhead => rfl
  | unasked hno => rfl

/-- The parts of an iteration that does not fail. -/
theorem returns_iterate (h : Returns (iterate pid paths tuning head) t (.inl head')) :
    ∃ t₁ t₂ t₃, t = t₁ ++ t₂ ++ t₃ ∧ (∀ e ∈ t₁, Discreet paths e.1) ∧
      Edge head.state head'.state ∧
      Returns (notifyChange paths head.state head'.state) t₂ () ∧
      Returns (announceReady head.announcedReady head'.state) t₃ head'.announcedReady := by
  obtain ⟨⟨s, r⟩, t₁, t₂, rfl, h₁, h₂⟩ := returns_bind_iff.mp h
  cases r with
  | error err =>
    obtain ⟨-, hx⟩ := returns_ret_iff.mp h₂
    cases hx
  | ok e =>
    obtain ⟨u, t₃, t₄, rfl, h₃, h₄⟩ := returns_bind_iff.mp h₂
    obtain ⟨announced, t₅, t₆, rfl, h₅, h₆⟩ := returns_bind_iff.mp h₄
    obtain ⟨rfl, hx⟩ := returns_ret_iff.mp h₆
    obtain rfl := Sum.inl.inj hx
    refine ⟨t₁, t₃, t₅, by simp, step_discreet.returns h₁, edge_of_step h₁, h₃, h₅⟩

theorem notifications_partial_announceReady {announced : Bool}
    (h : Partial (announceReady announced next) t) : notifications hook t = [] :=
  List.filterMap_eq_nil_iff.mpr fun e he => ((announceReady_aside _ _).cut h e he).untold

end Iteration

section Visits

theorem Visits.getLast? (h : Visits pid paths tuning t states head) :
    states.getLast? = some head.state := by
  cases h with
  | opening _ => rfl
  | iterate _ _ => exact List.getLast?_concat ..

theorem Visits.head? (h : Visits pid paths tuning t states head) :
    states.head? = some .tryClient := by
  induction h with
  | opening _ => rfl
  | iterate _ _ ih => rw [List.head?_append, ih]; rfl

/-- Another element is added to a list without repetitions unless it is the last one again. -/
theorem destutter_concat {α : Type} [DecidableEq α] {xs : List α} {a b : α}
    (h : xs.getLast? = some a) : (xs ++ [b]).destutter (· ≠ ·) =
      xs.destutter (· ≠ ·) ++ if b = a then [] else [b] := by
  obtain _ | ⟨x, xs⟩ := xs
  · cases h
  rw [List.cons_append, List.destutter_cons', List.destutter_cons']
  induction xs generalizing x with
  | nil =>
    obtain rfl : x = a := Option.some.inj h
    rw [List.nil_append, List.destutter'_singleton, List.destutter'_nil]
    by_cases hb : b = x
    · rw [if_pos hb, if_neg (not_not.mpr hb.symm), List.append_nil]
    · rw [if_neg hb, if_pos (Ne.symm hb)]
      rfl
  | cons y xs ih =>
    rw [List.getLast?_cons_cons] at h
    by_cases hxy : x = y
    · subst hxy
      rw [List.cons_append, List.destutter'_cons_neg _ (not_not.mpr rfl),
        List.destutter'_cons_neg _ (not_not.mpr rfl), ih x h]
    · rw [List.cons_append, List.destutter'_cons_pos _ hxy, List.destutter'_cons_pos _ hxy,
        ih y h, List.cons_append]

/-- Before the loop the hook hears of the state that the loop starts in. -/
theorem notifications_opening (h : Returns (opening paths).run t (.ok ())) :
    notifications paths.wifiStateHook t =
        (if paths.wifiStateHook = [] then [] else [.tryClient]) ∧
      ∀ e ∈ t, ¬ Readies e.1 := by
  obtain ⟨_, t₁, t₂, rfl, h₁, h₂⟩ := returns_try_bind_ok_iff.mp h
  obtain ⟨u, h₃, -⟩ := returns_lift_iff.mp h₂
  have hplain : ∀ e ∈ t₁, Discreet paths e.1 :=
    (uses_discreet (requireInterface_plain _)).returns h₁
  constructor
  · rw [notifications_append, notifications_discreet hplain, notifications_notify h₃,
      List.nil_append]
  · exact List.forall_mem_append.mpr
      ⟨fun e he => (hplain e he).not_readies, not_readies_notify h₃.cut⟩

/-- The hook hears the states of a run, and a state only once while it lasts. -/
theorem Visits.notifications_eq (h : Visits pid paths tuning t states head) :
    notifications paths.wifiStateHook t =
      if paths.wifiStateHook = [] then [] else states.destutter (· ≠ ·) := by
  induction h with
  | opening h => exact (notifications_opening h).1
  | iterate h hi ih =>
    obtain ⟨t₁, t₂, t₃, rfl, h₁, -, h₂, h₃⟩ := returns_iterate hi
    rw [notifications_append, notifications_append, notifications_append, ih,
      notifications_discreet h₁, notifications_notifyChange h₂,
      notifications_partial_announceReady h₃.cut, destutter_concat h.getLast?]
    by_cases hh : paths.wifiStateHook = []
    · simp [hh]
    · simp [hh]

theorem announced_first {b : Bool} (hn : next = .clientUp ∨ next = .fallbackAp)
    (h : Returns (announceReady false next) t b) : Announcement next t ∧ b = true := by
  have hp : (!false && (next == .clientUp || next == .fallbackAp)) = true := by
    rcases hn with rfl | rfl <;> rfl
  rw [announceReady, if_pos hp] at h
  obtain ⟨u, t₁, t₂, rfl, h₁, h₂⟩ := returns_bind_iff.mp h
  obtain ⟨rfl, rfl⟩ := returns_ret_iff.mp h₂
  rw [List.append_nil]
  exact ⟨announcement_of_notifyReady h₁, rfl⟩

end Visits

section Example

/-- A robot with a hook. -/
def hookPaths : Paths := { rootPaths with rawWifiStateHook := "led".toList }

def openingTrace : List (Event Sys) :=
  [⟨.output ip ["link".toList, "show".toList, "wlan0".toList], succeeded⟩,
    ⟨.spawn "led".toList ["try-client".toList], .error ⟨.notFound, []⟩⟩]

end Example

end RobotCtl.Wifi
