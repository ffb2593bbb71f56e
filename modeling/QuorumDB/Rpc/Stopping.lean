import QuorumDB.Rpc.Lifecycle
import QuorumDB.Lib.Workload
import Mathlib.Algebra.Order.BigOperators.Group.Finset
import Mathlib.Data.Finset.Card

/-!
Stopping a server. Stop ends under every schedule and leaves nothing of the server behind. It
reaches all connections, unless the system gave out a descriptor that was still on the list.
-/

namespace QuorumDB.Rpc
open Execution Finset

def ServerStep.outside : ServerStep → Bool
  | .openOther _ | .closeOther _ => true
  | _ => false

def ServerStep.byOwner : ServerStep → Bool
  | .start _ | .stop => true
  | _ => false

/-- What a thread that serves a connection still has to do. -/
def ClientStage.effort : ClientStage → Nat
  | .serving => 2
  | .erasing => 1
  | .unborn | .returned => 0

/-- The same of the loop of a server that is being stopped. A connection that it registered is served
after that, and the thread joined. -/
def AcceptStage.effort : AcceptStage → Nat
  | .returned => 0
  | .polling | .accepted .. => 1
  | .selecting _ => 2
  | .spawning .. => 5

/-- The same of `Stop` where that many threads are to be joined. -/
def StopStage.effort (threads : Nat) : StopStage → Nat
  | .idle => 0
  | .closing _ connections => connections.card + threads + 4
  | .shutting connections => connections.card + threads + 3
  | .swapping => threads + 2
  | .joining left => left.length + 1

def StopStage.remaining : StopStage → Finset Int
  | .closing _ connections => connections
  | .shutting connections => connections
  | .idle | .swapping | .joining _ => ∅

namespace RpcServer

/-- The most steps until a server that is being stopped has stopped. -/
def effort (server : RpcServer) : Nat :=
  server.stop.effort server.clientThreads.length + (server.acceptThread.elim 0 AcceptStage.effort) +
    ∑ serial ∈ range server.accepted, (server.stage serial).effort

/-- The system gave out a descriptor that is still on the list of the server. -/
def Reused (server : RpcServer) : Prop :=
  ∃ serial fd, server.acceptThread = some (.accepted serial fd) ∧ fd ∈ server.activeConnections

instance (server : RpcServer) : Decidable server.Reused :=
  match loops : server.acceptThread with
  | some (.accepted serial fd) => decidable_of_iff (fd ∈ server.activeConnections)
      ⟨fun listed => ⟨serial, fd, loops, listed⟩, fun ⟨_, _, same, listed⟩ => by cases loops.symm.trans same; exact listed⟩
  | none | some .polling | some (.selecting _) | some (.spawning ..) | some .returned =>
      isFalse fun ⟨_, _, same, _⟩ => nomatch loops.symm.trans same

/-- The process has opened something under the number of the listening descriptor, which the loop still uses. -/
def usurped (server : RpcServer) : Bool :=
  match server.acceptThread with
  | some (.selecting listener) => server.holder listener = some .other
  | _ => false

/-- Whether a thread may wait for a peer before this step. -/
def awaitsPeer (server : RpcServer) : ServerStep → Bool
  | .accept _ => true
  | .timeOut | .fail => server.usurped -- accept on a socket of another has no time limit
  | .close serial => serial ∉ server.shut -- recv and send return once the connection is shut down
  | _ => false

structure Gone (server : RpcServer) : Prop where
  acceptThread : server.acceptThread = none
  clientThreads : server.clientThreads = []
  connections : server.activeConnections = ∅
  threads : ∀ serial, ¬ server.Busy serial
  descriptors : ∀ fd, server.holder fd = none ∨ server.holder fd = some .other

def fresh : RpcServer := .new fun fd => if fd = 3 then some .other else none

variable {server later : RpcServer} {step : ServerStep} {past : List RpcServer}

theorem fresh_reaches {steps : List ServerStep} {visited : List RpcServer × RpcServer}
    (played : replay act fresh steps = some visited) : Reaches visited.1 visited.2 := by
  have begins : fresh.Initial := by
    refine ⟨_, fun fd => ?_, rfl⟩
    split_ifs
    · exact .inr rfl
    · exact .inl rfl
  have extended := Run.append_replay (.start begins) played
  rw [List.append_nil] at extended
  exact extended

theorem Sound.gone (known : server.Sound) (idle : server.stop = .idle) (halted : server.running = false) : server.Gone := by
  obtain ⟨ended, joined⟩ := known.stopped idle halted
  have free : ∀ serial, ¬ server.Busy serial := by
    intro serial busy
    rcases known.threads serial busy with listed | ⟨threads, joining, -⟩
    · rw [joined] at listed
      cases listed
    · cases idle.symm.trans joining
  refine ⟨ended, joined, eq_empty_of_forall_notMem fun fd listed => ?_, free, fun fd => ?_⟩
  · rcases known.connections fd listed with ⟨serial, busy, -⟩ | ⟨serial, spawning⟩
    · exact free serial busy
    · cases ended.symm.trans spawning
  · cases held : server.holder fd with
    | none => exact .inl rfl
    | some owner =>
      cases owner with
      | other => exact .inr rfl
      | listener =>
        rcases known.listener fd held with ⟨runs, -⟩ | ⟨connections, closing⟩
        · cases halted.symm.trans runs
        · cases idle.symm.trans closing
      | connection serial =>
        rcases known.held fd serial held with ⟨serves, -⟩ | accepted | spawning
        · exact absurd (.inl serves) (free serial)
        · cases ended.symm.trans accepted
        · cases ended.symm.trans spawning

theorem Gone.renewed (gone : server.Gone) {fd : Int} (begun : (new server.holder).start fd = some later) :
    later.Sound ∧ later.stop = .idle ∧ later.running = true := by
  have fresh : (new server.holder).Sound := sound (.start ⟨server.holder, gone.descriptors, rfl⟩)
  have moved : (new server.holder).act (.start fd) = some later := begun
  refine ⟨fresh.turn (act_turn moved), ?_⟩
  unfold start at begun
  split_ifs at begun with runs
  · cases runs
  · obtain rfl := Option.some.inj begun
    exact ⟨rfl, rfl⟩

theorem act_stop_running (moved : server.act .stop = some later) : later.running = false := by
  obtain ⟨-, moved⟩ := guarded moved
  obtain rfl := Option.some.inj moved
  unfold beginStop
  split_ifs with rests
  · exact rests.1
  · rfl

theorem Turn.kept (turn : Turn server step later) (inner : step.byOwner = false) :
    later.running = server.running ∧ (server.stop = .idle → later.stop = .idle) := by
  cases turn with
  | start | stop => cases inner
  | same | select | again | leave | accept | register | refuse | spawn | close | erase | openOther | closeOther => exact ⟨rfl, id⟩
  | joinedAll stops => exact ⟨rfl, fun _ => rfl⟩
  | closeListener stops | shutdown stops | joinAcceptThread stops | swapClientThreads stops | joinClientThread stops =>
    refine ⟨rfl, fun idle => ?_⟩
    cases idle.symm.trans stops

theorem Turn.leaves (turn : Turn server step later) (known : server.Sound) (own : step.outside = false) {fd : Int}
    (held : server.holder fd = some .other) : later.holder fd = some .other := by
  have apart : ∀ {owner : Option Holder} {target : Int}, server.holder target ≠ some .other →
      Function.update server.holder target owner fd = some .other := by
    intro owner target foreign
    have different : fd ≠ target := by
      rintro rfl
      exact foreign held
    rw [Function.update_of_ne different]
    exact held
  cases turn with
  | same | stop | shutdown | joinAcceptThread | swapClientThreads | joinedAll | joinClientThread => exact held
  | select | again | leave | register | spawn | erase => exact held
  | start idle halted unused =>
    apply apart
    rw [unused.2]
    nofun
  | accept loops unused =>
    apply apart
    rw [unused.2]
    nofun
  | @closeListener listener connections stops =>
    unfold RpcServer.closeListener
    simp only
    split_ifs
    · apply apart
      rw [(known.closing listener connections stops).2]
      decide
    · exact held
  | refuse loops =>
    apply apart
    rw [(known.pending _ _ (.inl loops)).1]
    nofun
  | close serves =>
    apply apart
    rw [known.served _ serves]
    nofun
  | openOther | closeOther => cases own

/-- In every execution the server leaves the descriptors of others open, and where it is stopped
none of its own is, and no thread of it is left. -/
theorem stop_leaves_nothing (run : Reaches past server) :
    (∀ step later, step.outside = false → server.act step = some later →
      ∀ fd, server.holder fd = some .other → later.holder fd = some .other) ∧
    (server.stop = .idle → server.running = false → server.Gone) :=
  ⟨fun _ _ own moved _ held => (act_turn moved).leaves (sound run) own held, (sound run).gone⟩

theorem stop_leaves_nothing_served : ∃ past server, Reaches past server ∧ server.accepted = 1 ∧
    server.holder 3 = some .other ∧ server.Gone := by
  have stopped : ∃ visited ∈ replay act fresh
      [.start 4, .poll, .accept 5, .register, .spawn, .stop, .closeListener, .shutdown 5, .poll, .close 0, .erase 0,
        .joinAcceptThread, .swapClientThreads, .joinClientThread, .joinClientThread],
      visited.2.accepted = 1 ∧ visited.2.holder 3 = some .other ∧ visited.2.stop = .idle ∧ visited.2.running = false := by
    decide +kernel
  obtain ⟨visited, played, one, other, idle, halted⟩ := stopped
  have run := fresh_reaches played
  exact ⟨_, _, run, one, other, (stop_leaves_nothing run).2 idle halted⟩

/-- As long as the system gave out no descriptor on the list, the list has all connections served, each
under its own descriptor, and `Stop` has shut down those it is past. -/
structure Listed (server : RpcServer) : Prop where
  busy : ∀ serial, server.Busy serial → server.fd serial ∈ server.activeConnections
  distinct : ∀ one two, server.Busy one → server.Busy two → server.fd one = server.fd two → one = two
  spawning : ∀ serial fd, server.acceptThread = some (.spawning serial fd) →
    fd ∈ server.activeConnections ∧ ∀ other, server.Busy other → server.fd other ≠ fd
  covered : server.stop ≠ .idle → ∀ serial fd, server.holder fd = some (.connection serial) →
    server.acceptThread ≠ some (.accepted serial fd) → serial ∈ server.shut ∨ fd ∈ server.stop.remaining

theorem listed_step (known : server.Sound) (listed : server.Listed) (unlisted : ¬ server.Reused)
    (turn : Turn server step later) : later.Listed := by
  obtain ⟨busy, distinct, spawning, covered⟩ := listed
  cases turn with
  | same => exact ⟨busy, distinct, spawning, covered⟩
  | start idle => exact ⟨busy, distinct, nofun, fun stops => absurd idle stops⟩
  | @stop idle =>
    refine ⟨busy, distinct, spawning, fun _ serial fd held different => .inr ?_⟩
    rcases known.held fd serial held with ⟨serves, rfl⟩ | accepted | waiting
    · exact busy serial (.inl serves)
    · exact absurd accepted different
    · exact (spawning serial fd waiting).1
  | closeListener stops =>
    refine ⟨busy, distinct, spawning, fun _ serial fd held different => ?_⟩
    have before : server.holder fd = some (.connection serial) := by
      unfold RpcServer.closeListener at held
      grind [Function.update]
    have reached := covered (by rw [stops]; nofun) serial fd before different
    rw [stops] at reached
    exact reached
  | @shutdown fd connections stops member =>
    refine ⟨busy, distinct, spawning, fun _ serial other held different => ?_⟩
    have reached := covered (by rw [stops]; nofun) serial other held different
    rw [stops] at reached
    change serial ∈ (server.shutdown fd connections).shut ∨ other ∈ connections.erase fd
    unfold RpcServer.shutdown
    by_cases same : other = fd
    · subst same
      rw [show server.holder other = some (.connection serial) from held]
      exact .inl (mem_insert_self _ _)
    · apply reached.imp
      · intro before
        simp only
        split
        · exact mem_insert_of_mem before
        · exact before
      · exact fun inside => mem_erase.mpr ⟨same, inside⟩
  | joinAcceptThread stops ended =>
    refine ⟨busy, distinct, nofun, fun _ serial fd held _ => ?_⟩
    have reached := covered (by rw [stops]; nofun) serial fd held (by rcases ended with ended | ended <;> rw [ended] <;> nofun)
    rw [stops] at reached
    exact reached
  | swapClientThreads stops =>
    refine ⟨busy, distinct, spawning, fun _ serial fd held different => ?_⟩
    have reached := covered (by rw [stops]; nofun) serial fd held different
    rw [stops] at reached
    exact reached
  | joinedAll => exact ⟨busy, distinct, spawning, fun stops => absurd rfl stops⟩
  | joinClientThread stops =>
    refine ⟨busy, distinct, spawning, fun _ serial fd held different => ?_⟩
    have reached := covered (by rw [stops]; nofun) serial fd held different
    rw [stops] at reached
    exact reached
  | select loops => exact ⟨busy, distinct, nofun, fun stops serial fd held _ => covered stops serial fd held (by rw [loops]; nofun)⟩
  | again loops => exact ⟨busy, distinct, nofun, fun stops serial fd held _ => covered stops serial fd held (by rw [loops]; nofun)⟩
  | leave loops free =>
    refine ⟨busy, distinct, nofun, fun stops serial fd held _ => covered stops serial fd held ?_⟩
    rw [loops]
    rcases free with rfl | ⟨listener, rfl⟩ <;> nofun
  | accept loops unused =>
    refine ⟨busy, distinct, nofun, fun stops serial fd held different => ?_⟩
    unfold takeConnection at held different
    exact covered stops serial fd (by grind [Function.update]) (by rw [loops]; nofun)
  | @register serial fd loops runs =>
    have fresh : fd ∉ server.activeConnections := fun member => unlisted ⟨serial, fd, loops, member⟩
    refine ⟨fun other works => mem_insert_of_mem (busy other works), distinct, fun other target waiting => ?_, fun stops => ?_⟩
    · obtain ⟨rfl, rfl⟩ := AcceptStage.spawning.inj (Option.some.inj waiting)
      refine ⟨mem_insert_self _ _, fun other works same => ?_⟩
      exact fresh (same ▸ busy other works)
    · have halted := known.quiet stops
      cases runs.symm.trans halted
  | refuse loops =>
    refine ⟨busy, distinct, nofun, fun stops serial target held _ => covered stops serial target ?_ ?_⟩ <;>
      grind [Function.update]
  | @spawn serial fd loops =>
    obtain ⟨member, apart⟩ := spawning serial fd loops
    constructor <;> simp only [RpcServer.spawn, Busy] at * <;> grind [Function.update]
  | close serves =>
    have mine := known.served _ serves
    constructor <;> simp only [closeConnection, Busy] at * <;> grind [Function.update]
  | erase erases => constructor <;> simp only [eraseConnection, Busy] at * <;> grind [Function.update]
  | openOther unused =>
    refine ⟨busy, distinct, spawning, fun stops serial target held => covered stops serial target ?_⟩
    unfold setHolder at held
    grind [Function.update]
  | closeOther =>
    refine ⟨busy, distinct, spawning, fun stops serial target held => covered stops serial target ?_⟩
    unfold setHolder at held
    grind [Function.update]

theorem listed_initial (fresh : server.Initial) : server.Listed := by
  obtain ⟨holder, -, rfl⟩ := fresh
  have free : ∀ serial, ¬ (new holder).Busy serial := by
    rintro serial (serves | erases)
    · cases serves
    · cases erases
  exact ⟨fun serial busy => absurd busy (free serial), fun one _ busy => absurd busy (free one), nofun, fun stops => absurd rfl stops⟩

theorem listed_or_reused (run : Reaches past server) : (∃ before ∈ server :: past, before.Reused) ∨ server.Listed := by
  apply @Run.invariant _ _ _ _ (fun past server => (∃ before ∈ server :: past, before.Reused) ∨ server.Listed) _ _ _ _ run
  · exact fun server fresh => .inr (listed_initial fresh)
  rintro past server step later before (⟨earlier, seen, reused⟩ | listed) moved
  · exact .inl ⟨earlier, List.mem_cons_of_mem _ seen, reused⟩
  · by_cases reused : server.Reused
    · exact .inl ⟨server, List.mem_cons_of_mem _ List.mem_cons_self, reused⟩
    · exact .inr (listed_step (sound before) listed reused (act_turn moved))

theorem Gone.relisted (gone : server.Gone) {fd : Int} (begun : (new server.holder).start fd = some later) : later.Listed := by
  have fresh : (new server.holder).Initial := ⟨server.holder, gone.descriptors, rfl⟩
  have moved : (new server.holder).act (.start fd) = some later := begun
  exact listed_step (sound (.start fresh)) (listed_initial fresh) (fun ⟨_, _, accepted, _⟩ => nomatch accepted) (act_turn moved)

/-- A connection that is served while `Stop` joins the threads was shut down, or the system had given
out a descriptor that was still on the list. -/
theorem stop_reaches_connections (run : Reaches past server) (joins : server.stop = .swapping ∨ ∃ threads, server.stop = .joining threads)
    {serial : Nat} (serves : server.stage serial = .serving) : serial ∈ server.shut ∨ ∃ before ∈ past, before.Reused := by
  have known := sound run
  have ended : server.acceptThread = none := by
    rcases joins with swaps | ⟨threads, joining⟩
    · exact known.joined swaps
    · exact (known.drained threads joining).1
  rcases listed_or_reused run with ⟨before, seen, reused⟩ | listed
  · rcases List.mem_cons.mp seen with rfl | earlier
    · obtain ⟨serial, fd, accepted, -⟩ := reused
      cases ended.symm.trans accepted
    · exact .inr ⟨before, earlier, reused⟩
  · have busy : server.stop ≠ .idle := by
      rcases joins with swaps | ⟨threads, joining⟩
      · rw [swaps]
        nofun
      · rw [joining]
        nofun
    have reached := listed.covered busy serial _ (known.served serial serves) (by rw [ended]; nofun)
    have none : server.stop.remaining = ∅ := by
      rcases joins with swaps | ⟨threads, joining⟩
      · rw [swaps]
        rfl
      · rw [joining]
        rfl
    rw [none] at reached
    exact .inl (reached.resolve_right (notMem_empty _))

theorem stop_reaches_connections_served : ∃ past server, Reaches past server ∧ server.stage 0 = .serving ∧
    (0 ∈ server.shut ∨ ∃ before ∈ past, before.Reused) := by
  have stopped : ∃ visited ∈ replay act fresh
      [.start 4, .poll, .accept 5, .register, .spawn, .stop, .closeListener, .shutdown 5, .poll, .joinAcceptThread],
      visited.2.stop = .swapping ∧ visited.2.stage 0 = .serving := by
    decide +kernel
  obtain ⟨visited, played, swaps, serves⟩ := stopped
  have run := fresh_reaches played
  exact ⟨_, _, run, serves, stop_reaches_connections run (.inl swaps) serves⟩

/-- A descriptor is closed, given to a new connection, and only then taken off the list. `Stop` misses
the new connection and waits for it. -/
theorem reused_missed : ∃ past server, Reaches past server ∧ server.stop = .joining [0, 1] ∧
    server.stage 1 = .serving ∧ 1 ∉ server.shut := by
  have stopped : ∃ visited ∈ replay act fresh
      [.start 4, .poll, .accept 5, .register, .spawn, .close 0, .poll, .accept 5, .register, .spawn, .erase 0,
        .stop, .closeListener, .poll, .joinAcceptThread, .swapClientThreads],
      visited.2.stop = .joining [0, 1] ∧ visited.2.stage 1 = .serving ∧ 1 ∉ visited.2.shut := by
    decide +kernel
  obtain ⟨visited, played, missed⟩ := stopped
  exact ⟨_, _, fresh_reaches played, missed⟩

/-- While `Stop` runs, each step of the server leaves less to do. -/
theorem Turn.spends (turn : Turn server step later) (known : server.Sound) (stopping : server.stop ≠ .idle) :
    later.effort + (if !step.outside then 1 else 0) ≤ server.effort := by
  have halted := known.quiet stopping
  have inside : ∀ serial, server.stage serial ≠ .unborn → serial < server.accepted := by
    intro serial begun
    by_contra above
    exact begun (known.unborn serial (not_lt.mp above))
  have most : (if !step.outside then 1 else 0) ≤ 1 := by split <;> omega
  cases turn with
  | same idle | start idle | stop idle => exact absurd idle stopping
  | select loops runs | register loops runs => cases halted.symm.trans runs
  | openOther | closeOther => exact le_refl _
  | closeListener stops =>
    unfold effort
    rw [stops]
    simp only [RpcServer.closeListener, StopStage.effort]
    omega
  | swapClientThreads stops =>
    unfold effort
    rw [stops]
    simp only [StopStage.effort]
    omega
  | joinedAll stops =>
    unfold effort
    rw [stops]
    simp only [setStop, StopStage.effort, List.length_nil]
    omega
  | shutdown stops member =>
    have fewer := card_erase_lt_of_mem member
    unfold effort
    rw [stops]
    simp only [RpcServer.shutdown, StopStage.effort]
    omega
  | joinAcceptThread stops ended =>
    unfold effort
    rw [stops]
    simp only [setAcceptThread, setStop, StopStage.effort, card_empty, Option.elim_none]
    omega
  | joinClientThread stops ended =>
    unfold effort
    rw [stops]
    simp only [setStop, StopStage.effort, List.length_cons]
    omega
  | again loops =>
    unfold effort
    rw [loops]
    simp only [setAcceptThread, Option.elim_some, AcceptStage.effort]
    omega
  | leave loops free =>
    unfold effort
    rw [loops]
    rcases free with rfl | ⟨listener, rfl⟩ <;> simp only [setAcceptThread, Option.elim_some, AcceptStage.effort] <;> omega
  | accept loops =>
    have unborn := known.unborn server.accepted (le_refl _)
    unfold effort
    rw [loops]
    simp only [takeConnection, Option.elim_some, AcceptStage.effort, sum_range_succ, unborn, ClientStage.effort]
    omega
  | refuse loops =>
    unfold effort
    rw [loops]
    simp only [Option.elim_some, AcceptStage.effort]
    omega
  | @spawn serial fd loops =>
    obtain ⟨-, unborn, accepted⟩ := known.pending serial fd (.inr loops)
    have sum := sum_update ClientStage.effort server.stage accepted .serving
    have threads : server.stop.effort (server.clientThreads ++ [serial]).length ≤ server.stop.effort server.clientThreads.length + 1 := by
      rw [List.length_append, List.length_singleton]
      cases server.stop <;> simp only [StopStage.effort] <;> omega
    have more : ClientStage.serving.effort = (server.stage serial).effort + 2 := by
      rw [unborn]
      rfl
    unfold effort
    rw [loops]
    simp only [RpcServer.spawn, Option.elim_some, AcceptStage.effort]
    omega
  | @close serial serves =>
    have sum := sum_update ClientStage.effort server.stage (inside serial (by rw [serves]; decide)) .erasing
    have less : ClientStage.erasing.effort + 1 = (server.stage serial).effort := by
      rw [serves]
      rfl
    unfold effort
    simp only [closeConnection]
    omega
  | @erase serial erases =>
    have sum := sum_update ClientStage.effort server.stage (inside serial (by rw [erases]; decide)) .returned
    have less : ClientStage.returned.effort + 1 = (server.stage serial).effort := by
      rw [erases]
      rfl
    unfold effort
    simp only [eraseConnection]
    omega

theorem Turn.serving (turn : Turn server step later) :
    (∀ serial, later.stage serial = .serving → server.stage serial = .serving) ∨
    ∃ serial, step.outside = false ∧ ∀ other, later.stage other = .serving → server.stage other = .serving ∨ other = serial := by
  cases turn with
  | @spawn serial fd =>
    refine .inr ⟨serial, rfl, fun other serves => ?_⟩
    by_cases same : other = serial
    · exact .inr same
    · exact .inl ((Function.update_of_ne same _ _).symm.trans serves)
  | @close serial | @erase serial =>
    refine .inl fun other serves => ?_
    by_cases same : other = serial
    · subst same
      cases (Function.update_self _ _ _).symm.trans serves
    · exact (Function.update_of_ne same _ _).symm.trans serves
  | _ => exact .inl fun _ => id

theorem Gone.still (gone : server.Gone) (idle : server.stop = .idle)
    (turn : Turn server step later) (inner : step.byOwner = false) : step.outside = true ∧ later.effort = server.effort := by
  have ended := gone.acceptThread
  cases turn with
  | same _ owned =>
    rcases owned with rfl | ⟨fd, rfl⟩
    · cases inner
    · cases inner
  | start | stop => cases inner
  | closeListener stops | shutdown stops | joinAcceptThread stops | swapClientThreads stops | joinedAll stops | joinClientThread stops =>
    cases idle.symm.trans stops
  | select loops | again loops | leave loops | accept loops | register loops | refuse loops | spawn loops =>
    cases ended.symm.trans loops
  | close serves => exact absurd (.inl serves) (gone.threads _)
  | erase erases => exact absurd (.inr erases) (gone.threads _)
  | openOther | closeOther => exact ⟨rfl, rfl⟩

/-- While `Stop` runs, some thread of the server can go on without a peer. -/
theorem Sound.goes_on (known : server.Sound) (listed : server.Listed) (own : server.usurped = false)
    (stopping : server.stop ≠ .idle) :
    ∃ step later, step.outside = false ∧ server.awaitsPeer step = false ∧ server.act step = some later := by
  have moves : ∀ step, (server.act step).isSome → step.outside = false → server.awaitsPeer step = false →
      ∃ step later, step.outside = false ∧ server.awaitsPeer step = false ∧ server.act step = some later := by
    intro step moved own unasked
    obtain ⟨later, moved⟩ := Option.isSome_iff_exists.mp moved
    exact ⟨step, later, own, unasked, moved⟩
  cases stops : server.stop with
  | idle => exact absurd stops stopping
  | closing listener connections =>
    apply moves .closeListener _ rfl rfl
    simp only [act, stops]
    rfl
  | shutting connections =>
    rcases connections.eq_empty_or_nonempty with rfl | ⟨fd, member⟩
    · cases loops : server.acceptThread with
      | none =>
        apply moves .joinAcceptThread _ rfl rfl
        simp only [act, stops, loops]
        rfl
      | some stage =>
        cases stage with
        | polling =>
          apply moves .poll _ rfl rfl
          simp only [act, loops]
          rfl
        | selecting listener =>
          apply moves .timeOut _ rfl own
          simp only [act, loops]
          rfl
        | accepted serial fd =>
          apply moves .register _ rfl rfl
          simp only [act, loops]
          rfl
        | spawning serial fd =>
          apply moves .spawn _ rfl rfl
          simp only [act, loops]
          rfl
        | returned =>
          apply moves .joinAcceptThread _ rfl rfl
          simp only [act, stops, loops]
          rfl
    · apply moves (.shutdown fd) _ rfl rfl
      simp only [act, stops, if_pos member, Option.isSome_some]
  | swapping =>
    apply moves .swapClientThreads _ rfl rfl
    simp only [act, if_pos stops, Option.isSome_some]
  | joining threads =>
    cases threads with
    | nil =>
      apply moves .joinClientThread _ rfl rfl
      simp only [act, stops]
      rfl
    | cons serial rest =>
      cases stage : server.stage serial with
      | unborn => exact absurd stage (known.begun serial (.inr ⟨_, stops, List.mem_cons_self⟩))
      | serving =>
        -- Stop is past all connections, so it has shut this one down
        have ended : server.acceptThread = none := (known.drained _ stops).1
        have reached := listed.covered stopping serial _ (known.served serial stage) (by rw [ended]; exact (Option.some_ne_none _).symm)
        rw [stops] at reached
        have shut : serial ∈ server.shut := reached.resolve_right (notMem_empty _)
        apply moves (.close serial) _ rfl (decide_eq_false (not_not.mpr shut))
        simp only [act, if_pos stage, Option.isSome_some]
      | erasing =>
        apply moves (.erase serial) _ rfl rfl
        simp only [act, if_pos stage, Option.isSome_some]
      | returned =>
        apply moves .joinClientThread _ rfl rfl
        simp only [act, stops, if_pos stage, Option.isSome_some]

theorem Sound.effort_begun (known : server.Sound) {listener : Int} {connections : Finset Int}
    (begun : server.stop = .closing listener connections) :
    server.effort ≤ connections.card + 3 * server.clientThreads.length + 9 := by
  have loop : server.acceptThread.elim 0 AcceptStage.effort ≤ 5 := by
    cases server.acceptThread with
    | none => exact Nat.zero_le _
    | some stage => cases stage <;> simp only [Option.elim_some, AcceptStage.effort] <;> omega
  have threads : ∑ serial ∈ range server.accepted, (server.stage serial).effort ≤ 2 * server.clientThreads.length := by
    calc ∑ serial ∈ range server.accepted, (server.stage serial).effort
        ≤ ∑ serial ∈ server.clientThreads.toFinset, (server.stage serial).effort := by
          apply sum_le_sum_of_ne_zero
          intro serial _ works
          have busy : server.Busy serial := by
            unfold Busy
            cases stage : server.stage serial <;> simp_all [ClientStage.effort]
          apply List.mem_toFinset.mpr
          apply (known.threads serial busy).resolve_right
          rintro ⟨joined, joining, -⟩
          cases begun.symm.trans joining
      _ ≤ server.clientThreads.toFinset.card * 2 := by
          apply sum_le_card_nsmul
          intro serial _
          cases server.stage serial <;> simp only [ClientStage.effort] <;> omega
      _ ≤ 2 * server.clientThreads.length := by
          have fewer := server.clientThreads.toFinset_card_le
          omega
  unfold effort
  rw [begun]
  simp only [StopStage.effort]
  omega

/-- From where `Stop` has taken the lists, every schedule has only so many steps of the server before
`Stop` returns. Until then some thread of it can go on without a peer, unless the system gave out a descriptor
that was still on the list, or the number of the one that the loop listens on. -/
theorem stop_ends (run : Reaches past server) {listener : Int} {connections : Finset Int}
    (begun : server.stop = .closing listener connections) {steps : List ServerStep} {visited : List RpcServer × RpcServer}
    (played : replay act server steps = some visited) (stopping : ∀ passed ∈ visited.1, passed.stop ≠ .idle) :
    steps.countP (fun step => !step.outside) ≤ connections.card + 3 * server.clientThreads.length + 9 ∧
    (visited.2.stop ≠ .idle → (∃ before ∈ visited.2 :: (visited.1 ++ past), before.Reused) ∨ visited.2.usurped = true ∨
      ∃ step later, step.outside = false ∧ visited.2.awaitsPeer step = false ∧ visited.2.act step = some later) := by
  have spent := @replay_spends _ _ act (fun server => server.Sound) (fun server => server.stop ≠ .idle)
    (fun step => !step.outside) effort
    (fun server step later known moved => known.turn (act_turn moved))
    (fun server step later known busy moved => (act_turn moved).spends known busy)
    _ _ _ played (sound run) stopping
  have bounded := (sound run).effort_begun begun
  refine ⟨by omega, fun still => ?_⟩
  rcases listed_or_reused (Run.append_replay run played) with reused | listed
  · exact .inl reused
  · cases own : visited.2.usurped with
    | true => exact .inr (.inl rfl)
    | false => exact .inr (.inr (spent.2.goes_on listed own still))

theorem stop_ends_served : ∃ past server, ∃ steps : List ServerStep, ∃ visited : List RpcServer × RpcServer, Reaches past server ∧
    server.stop = .closing 4 {5} ∧ replay act server steps = some visited ∧ visited.2.stop = .joining [0] ∧
    visited.2.stage 0 = .serving ∧
    steps.countP (fun step => !step.outside) ≤ ({5} : Finset Int).card + 3 * server.clientThreads.length + 9 ∧
    ∃ step later, step.outside = false ∧ visited.2.awaitsPeer step = false ∧ visited.2.act step = some later := by
  have begun : ∃ visited ∈ replay act fresh [.start 4, .poll, .accept 5, .register, .spawn, .stop],
      visited.2.stop = .closing 4 {5} ∧
      ∃ after ∈ replay act visited.2 [.closeListener, .openOther 6, .shutdown 5, .poll, .joinAcceptThread, .swapClientThreads],
        (∀ passed ∈ after.1, passed.stop ≠ .idle) ∧ after.2.stop = .joining [0] ∧ after.2.stage 0 = .serving ∧
        (∀ before ∈ after.2 :: (after.1 ++ visited.1), ¬ before.Reused) ∧ after.2.usurped = false := by
    decide +kernel
  obtain ⟨visited, played, closing, after, playedAfter, stopping, joining, serves, unused, own⟩ := begun
  have run := fresh_reaches played
  obtain ⟨few, goes⟩ := stop_ends run closing playedAfter stopping
  rcases goes (by rw [joining]; nofun) with ⟨before, seen, reused⟩ | usurped | goes
  · exact absurd reused (unused before seen)
  · cases own.symm.trans usurped
  · exact ⟨_, _, _, after, run, closing, playedAfter, joining, serves, few, goes⟩

end RpcServer

end QuorumDB.Rpc
