import Bano.Handoff

/-! What the two threads reach: a handler that is answered returns, and bano_httpd_fini
returns if no handler waits for an answer that nobody will give. -/
namespace Bano

open Lib

/-- Statements that are left of bano_httpd_complete_msg. -/
def MainPc.left (due : Bool) : MainPc → Nat
  | .serve => if due then 6 else 0
  | .send _ => 5
  | .lock _ => 4
  | .store _ => 3
  | .signal => 2
  | .unlock => 1
  | _ => 0

/-- Statements of the handler until it returns. Without its answer these
are those until it sleeps, and the three that follow. -/
def ServerPc.left (stored asleep : Bool) : ServerPc → Nat
  | .lock => if stored then 3 else 5
  | .check => if stored then 2 else 4
  | .wait => if stored || asleep then 3 else 5
  | .unlock => 1
  | _ => 0

variable {page : PageOf} {compl : HttpdCompl} {linfo : LoopInfo} {s t u : Handoff}
  {outstanding : List (Ptr × ClientMsg)}
  {current answered : List ClientMsg} {msg : ClientMsg}

namespace Handoff

def stored (s : Handoff) : Bool := s.frame.any fun f => f.complErr ≠ invalidComplErr

def rank (s : Handoff) : Nat := s.main.left (s.told < s.http.replies.length) + s.server.left s.stored s.asleep

theorem completeStep_returned {s : Handoff} (taken : s.completeStep = some s') : s'.returned = s.returned := by
  unfold completeStep at taken
  split at taken
  · obtain ⟨_,_,rfl⟩ := bind_some.mp taken
    rfl
  · obtain ⟨_,_,taken⟩ := Option.bind_eq_some_iff.mp taken
    split at taken
    · obtain rfl := Option.some.inj taken
      rfl
    · cases taken
  · split at taken
    · obtain rfl := Option.some.inj taken
      rfl
    · cases taken
  · obtain ⟨_,_,taken⟩ := Option.bind_eq_some_iff.mp taken
    split at taken
    · obtain rfl := Option.some.inj taken
      rfl
    · cases taken
  · obtain rfl := Option.some.inj taken
    rfl
  · obtain rfl := Option.some.inj taken
    rfl
  · cases taken

theorem finiStep_returned {s : Handoff} (taken : s.finiStep = some s') : s'.returned = s.returned := by
  unfold finiStep at taken
  split at taken
  · obtain rfl := Option.some.inj taken
    rfl
  · obtain rfl := Option.some.inj taken
    rfl
  · obtain rfl := Option.some.inj taken
    split <;> rfl
  · split at taken
    · obtain rfl := Option.some.inj taken
      rfl
    · cases taken
  · cases taken

theorem serverStep_kept {s : Handoff} (taken : s.serverStep = some s') :
    s'.main = s.main ∧ s.returned.length ≤ s'.returned.length := by
  unfold serverStep at taken
  split at taken
  · obtain rfl := Option.some.inj taken
    exact ⟨rfl,Nat.le_refl _⟩
  · split at taken
    · obtain rfl := Option.some.inj taken
      exact ⟨rfl,Nat.le_refl _⟩
    · cases taken
  · obtain ⟨_,_,taken⟩ := Option.bind_eq_some_iff.mp taken
    split at taken <;> obtain rfl := Option.some.inj taken <;> exact ⟨rfl,Nat.le_refl _⟩
  · split at taken
    · cases taken
    split at taken
    · obtain rfl := Option.some.inj taken
      exact ⟨rfl,Nat.le_refl _⟩
    · cases taken
  · obtain ⟨_,_,rfl⟩ := bind_some.mp taken
    exact ⟨rfl,by simp⟩
  · obtain rfl := Option.some.inj taken
    exact ⟨rfl,Nat.le_refl _⟩
  all_goals cases taken

/-- A handler that returned stays so. -/
theorem step_returned {s : Handoff} (taken : step page compl linfo label s = some s') :
    s.returned.length ≤ s'.returned.length := by
  cases label with
  | request | polled =>
    simp only [step] at taken
    split at taken
    · obtain rfl := Option.some.inj taken
      exact Nat.le_refl _
    · cases taken
  | write ok =>
    obtain ⟨_,_,taken⟩ := Option.bind_eq_some_iff.mp taken
    split at taken
    · split at taken <;> obtain rfl := Option.some.inj taken <;> exact Nat.le_refl _
    · cases taken
  | wake | close =>
    obtain rfl := Option.some.inj taken
    exact Nat.le_refl _
  | server => exact (serverStep_kept taken).2
  | loop label =>
    obtain ⟨_,_,rfl⟩ := bind_some.mp taken
    exact Nat.le_refl _
  | read li env =>
    simp only [step] at taken
    split at taken
    · cases taken
    · obtain ⟨_,_,rfl⟩ := bind_some.mp taken
      exact Nat.le_refl _
  | complete => exact Nat.le_of_eq (congrArg List.length (completeStep_returned taken).symm)
  | fini => exact Nat.le_of_eq (congrArg List.length (finiStep_returned taken).symm)

theorem rank_le (s : Handoff) : s.rank ≤ 11 := by
  have main : ∀ due, s.main.left due ≤ 6 := by intro due; cases s.main <;> cases due <;> simp [MainPc.left]
  have server : ∀ stored asleep, s.server.left stored asleep ≤ 5 := by
    intro stored asleep
    cases s.server <;> cases stored <;> cases asleep <;> simp [ServerPc.left]
  exact Nat.add_le_add (main _) (server _ _)

end Handoff

def HandoffStep.own : HandoffStep → Bool
  | .server | .complete => true
  | _ => false

def HandoffStep.wakes : HandoffStep → Bool
  | .wake => true
  | _ => false

namespace Coherent

theorem inside (coherent : Coherent compl s outstanding [msg] answered) : s.server ≠ .poll ∧ s.server ≠ .write ∧
    s.server ≠ .ended := by
  rcases coherent.talk.inside with awaits | here
  · refine ⟨?_,?_,?_⟩ <;> rintro same <;> rw [same] at awaits <;> cases awaits
  · simp [here]

/-- The lock is free, or one of the threads is past its pthread_mutex_lock. -/
theorem lock_cases (coherent : Coherent compl s outstanding current answered) :
    s.lock = none ∨ s.server.locked = true ∨ s.main.locked = true := by
  match held : s.lock with
  | none => exact .inl rfl
  | some .server => exact .inr (.inl (coherent.locked.byServer.mp held))
  | some .main => exact .inr (.inr (coherent.locked.byMain.mp held))

theorem rank_pos (coherent : Coherent compl s outstanding [msg] answered) : 0 < s.rank := by
  refine Nat.lt_of_lt_of_le ?_ (Nat.le_add_left _ _)
  rcases coherent.talk.inside with awaits | here
  · cases pc : s.server <;> simp [pc,ServerPc.awaits] at awaits <;> simp only [ServerPc.left] <;> split <;> decide
  · simp [here,ServerPc.left]

/-- While an answer is on its way, one of the two threads can go on with it. -/
theorem ready (coherent : Coherent compl s outstanding [msg] [msg]) : s.serverReady = true ∨
    s.completeReady = true := by
  have held := coherent.lock_cases
  have locked := coherent.locked
  have talk := coherent.talk
  generalize outstanding.map Prod.snd = asked at talk
  generalize left : s.http.replies.drop s.told = due at talk
  generalize frame : s.frame = f at talk
  generalize s.pipe = pipe at talk
  cases talk with
  | due _ r awaits holds =>
    have more : s.told < s.http.replies.length := by
      by_contra few
      rw [List.drop_eq_nil_of_le (Nat.le_of_not_lt few)] at left
      cases left
    cases main : s.main with
    | serve => exact .inr (by simp [Handoff.completeReady,main,more])
    | send | store => exact .inr (by simp [Handoff.completeReady,main])
    | lock =>
      rcases held with free | server | busy
      · exact .inr (by simp [Handoff.completeReady,main,free])
      · cases pc : s.server <;> simp [pc,ServerPc.locked,ServerPc.awaits] at server awaits
        exact .inl (by simp [Handoff.serverReady,pc])
      · simp [main,MainPc.locked] at busy
    | _ => simp [main,MainPc.holds] at holds
  | stored _ r awaits here => exact .inr (by rcases here with main | main <;> simp [Handoff.completeReady,main])
  | told _ waits quiet =>
    have unlocked : s.main.locked = false := by
      cases main : s.main <;> simp [main,MainPc.quiet,MainPc.locked] at quiet ⊢
    have awake : s.asleep = false := by
      apply Bool.eq_false_iff.mpr
      intro sleeps
      have signal : s.main ≠ .signal := by
        intro main
        simp [main,MainPc.quiet] at quiet
      have invalid := locked.alert sleeps signal _ frame
      cases invalid
    refine .inl ?_
    cases pc : s.server with
    | lock | wait =>
      have free : s.lock = none := by simpa [pc,ServerPc.locked,unlocked] using held
      simp [Handoff.serverReady,pc,free,awake]
    | check | unlock => simp [Handoff.serverReady,pc]
    | _ => simp [pc,ServerPc.awaits] at waits

/-- bano_httpd_complete_msg goes on, and no statement of it takes the handler further from its answer. -/
theorem complete_lowers (coherent : Coherent compl s outstanding [msg] [msg]) (ready : s.completeReady = true)
    (taken : s.completeStep = some t) : t.rank < s.rank := by
  obtain ⟨accounts,talk,written,locked,ending⟩ := coherent
  obtain ⟨http,pipe,frame,server,main,lock,asleep,isDone,told,asked,returned⟩ := s
  simp only at accounts talk written locked ending
  cases main with
  | serve =>
    have more : told < http.replies.length := by simpa [Handoff.completeReady] using ready
    obtain ⟨r,_,rfl⟩ := bind_some.mp taken
    simp [Handoff.rank,MainPc.left,more,Handoff.stored]
  | send r =>
    obtain ⟨f,_,taken⟩ := Option.bind_eq_some_iff.mp taken
    split at taken
    · obtain rfl := Option.some.inj taken
      simp [Handoff.rank,MainPc.left,Handoff.stored]
    · cases taken
  | lock r =>
    simp only [Handoff.completeStep] at taken
    split at taken
    · obtain rfl := Option.some.inj taken
      simp [Handoff.rank,MainPc.left,Handoff.stored]
    · cases taken
  | store r =>
    obtain ⟨msg',r',rfl,awaits,rfl,answers,_⟩ := talk.holds (.inl rfl) (by simp)
    simp only [Handoff.completeStep,Option.bind_eq_bind,Option.bind_some,answers.2.1,if_true] at taken
    obtain rfl := Option.some.inj taken
    simp only [Handoff.rank,MainPc.left,Handoff.stored,Option.any_some,answers.2.2]
    cases server <;> simp [ServerPc.awaits,ServerPc.left,invalidComplErr] at awaits ⊢
    cases asleep <;> simp
  | signal =>
    obtain ⟨msg',r,rfl,_⟩ := talk.stores (.inl rfl)
    obtain rfl := Option.some.inj taken
    simp only [Handoff.rank,MainPc.left,Handoff.stored,Option.any_some]
    cases server <;> simp [ServerPc.left,invalidComplErr]
  | unlock =>
    obtain ⟨msg',r,rfl,_,_,_,_,due,_⟩ := talk.stores (.inr rfl)
    obtain rfl := Option.some.inj taken
    have last : ¬told + 1 < http.replies.length := by
      have := congrArg List.length due
      rw [List.length_drop,List.length_singleton] at this
      omega
    simp [Handoff.rank,MainPc.left,last,Handoff.stored]
  | setDone | wakeup | join | destroy | closed => simp [Handoff.completeReady] at ready

/-- Each statement of the handler takes it nearer to its return. -/
theorem server_lowers (coherent : Coherent compl s outstanding [msg] [msg]) (ready : s.serverReady = true)
    (taken : s.serverStep = some t) : t.rank < s.rank := by
  have inside := coherent.inside
  obtain ⟨accounts,talk,written,locked,ending⟩ := coherent
  obtain ⟨http,pipe,frame,server,main,lock,asleep,isDone,told,asked,returned⟩ := s
  simp only at accounts talk written locked ending inside
  cases server with
  | lock =>
    simp only [Handoff.serverStep] at taken
    split at taken
    · obtain rfl := Option.some.inj taken
      obtain ⟨f,rfl⟩ := talk.frame_some rfl
      by_cases invalid : f.complErr = invalidComplErr <;> simp [Handoff.rank,ServerPc.left,Handoff.stored,invalid]
    · cases taken
  | check =>
    obtain ⟨f,same,taken⟩ := Option.bind_eq_some_iff.mp taken
    simp only at same
    subst same
    by_cases invalid : f.complErr = invalidComplErr
    · rw [if_pos invalid] at taken
      obtain rfl := Option.some.inj taken
      simp [Handoff.rank,ServerPc.left,Handoff.stored,invalid]
    · rw [if_neg invalid] at taken
      obtain rfl := Option.some.inj taken
      simp [Handoff.rank,ServerPc.left,Handoff.stored,invalid]
  | wait =>
    simp only [Handoff.serverStep] at taken
    split at taken
    · cases taken
    next awake =>
    split at taken
    · obtain rfl := Option.some.inj taken
      obtain ⟨f,rfl⟩ := talk.frame_some rfl
      by_cases invalid : f.complErr = invalidComplErr <;>
        simp [Handoff.rank,ServerPc.left,Handoff.stored,invalid,awake]
    · cases taken
  | unlock =>
    obtain ⟨f,_,rfl⟩ := bind_some.mp taken
    simp [Handoff.rank,ServerPc.left]
  | test | done => rcases talk.inside with here | here <;> cases here
  | poll | write | ended => simp [Handoff.serverReady] at ready

/-- Outside of bano_httpd_complete_msg, the answer of a handler was handed over. -/
theorem arrived (coherent : Coherent compl s outstanding [msg] [msg]) (quiet : s.main.quiet = true)
    (none : s.main = .serve → s.http.replies.drop s.told = []) : s.frame = some ⟨msg,0⟩ ∧ s.pipe = [] ∧
      s.http.replies.length ≤ s.told := by
  obtain ⟨frame,pipe,_,due⟩ := coherent.talk.arrives quiet none
  exact ⟨frame,pipe,List.drop_eq_nil_iff.mp due⟩

/-- A step of the loop between two answers leaves the handler that has its own alone. -/
theorem loop_lowers (coherent : Coherent compl s outstanding [msg] [msg]) (page : PageOf)
    (noTimer : linfo.timerFn = false)
    (allowed : (HandoffStep.loop label).Allowed compl linfo s)
    (taken : Handoff.step page compl linfo (.loop label) s = some t) :
    (t.returned = s.returned ∧ ∃ outstanding', Coherent compl t outstanding' [msg] [msg]) ∧ t.rank = s.rank := by
  obtain ⟨t',outstanding',answered',taken',coherent'⟩ := coherent.loop page noTimer allowed
  obtain rfl := Option.some.inj (taken.symm.trans taken')
  have here := allowed.1
  obtain ⟨frame,_,few⟩ := coherent.arrived (by rw [here.1]; rfl) fun _ => atLoop here
  obtain ⟨http,_,rfl⟩ := bind_some.mp taken
  have talk := coherent'.talk
  simp only [frame] at talk
  obtain ⟨none,rfl⟩ := talk.valid (by rw [here.1]; rfl)
  refine ⟨⟨rfl,outstanding',coherent'⟩,?_⟩
  simp [Handoff.rank,here.1,MainPc.left,Nat.not_lt.mpr (List.drop_eq_nil_iff.mp none),
    Nat.not_lt.mpr few,Handoff.stored]

/-- bano_httpd_fini waits for the thread of the server, and does nothing for it. -/
theorem fini_rank (ready : s.finiReady = true) (taken : s.finiStep = some t) : t.rank = s.rank := by
  obtain ⟨http,pipe,frame,server,main,lock,asleep,isDone,told,asked,returned⟩ := s
  cases main with
  | setDone | wakeup =>
    obtain rfl := Option.some.inj taken
    rfl
  | join =>
    obtain rfl := Option.some.inj taken
    cases isDone <;> rfl
  | destroy =>
    simp only [Handoff.finiStep] at taken
    split at taken
    · obtain rfl := Option.some.inj taken
      rfl
    · cases taken
  | serve | send | lock | store | signal | unlock | closed => simp [Handoff.finiReady] at ready

/-- Every step takes an answered handler to its return, or leaves it as near to it;
a wake-up without a signal may take it back by two statements. -/
theorem lowers (coherent : Coherent compl s outstanding [msg] [msg]) (noTimer : linfo.timerFn = false)
    (allowed : label.Allowed compl linfo s) (taken : Handoff.step page compl linfo label s = some t) :
    s.returned.length < t.returned.length ∨ (t.returned = s.returned ∧ ∃ outstanding',
      Coherent compl t outstanding' [msg] [msg]) ∧
      t.rank + (if label.own then 1 else 0) ≤ s.rank + (if label.wakes then 2 else 0) := by
  have inside := coherent.inside
  cases label with
  | request | polled => exact absurd allowed inside.1
  | write => exact absurd allowed inside.2.1
  | wake =>
    obtain rfl := Option.some.inj taken
    refine .inr ⟨⟨rfl,outstanding,coherent.wake⟩,?_⟩
    have here : s.server = .wait := allowed
    have woken : ∀ stored asleep, ServerPc.left stored false .wait ≤
      ServerPc.left stored asleep .wait + 2 := by decide
    have lower : s.server.left s.stored false ≤ s.server.left s.stored s.asleep + 2 := by
      rw [here]
      exact woken _ _
    exact Nat.add_le_add_left lower (s.main.left (s.told < s.http.replies.length))
  | server =>
    obtain ⟨t',taken',outcome⟩ := coherent.server allowed
    obtain rfl := Option.some.inj (taken'.symm.trans taken)
    rcases outcome with ⟨coherent',same⟩ | ⟨_,_,_,_,more⟩
    · have lower := coherent.server_lowers allowed taken
      exact .inr ⟨⟨same,outstanding,coherent'⟩,lower⟩
    · exact .inl (by simp [more])
  | loop label =>
    obtain ⟨kept,same⟩ := coherent.loop_lowers page noTimer allowed taken
    exact .inr ⟨kept,Nat.le_of_eq same⟩
  | read li env =>
    obtain ⟨here,_,_,full,_⟩ := allowed
    obtain ⟨_,empty,_⟩ := coherent.arrived (by rw [here.1]; rfl) fun _ => atLoop here
    exact nomatch full.symm.trans empty
  | complete =>
    obtain ⟨t',taken',coherent'⟩ := coherent.complete allowed
    obtain rfl := Option.some.inj (taken'.symm.trans taken)
    exact .inr ⟨⟨Handoff.completeStep_returned taken,outstanding,coherent'⟩,coherent.complete_lowers allowed taken⟩
  | close =>
    obtain rfl := Option.some.inj taken
    obtain ⟨_,_,few⟩ := coherent.arrived (by rw [allowed.1]; rfl) fun _ => atLoop allowed
    refine .inr ⟨⟨rfl,outstanding,coherent.close allowed⟩,?_⟩
    simp [Handoff.rank,MainPc.left,allowed.1,Nat.not_lt.mpr few,Handoff.stored,HandoffStep.own]
  | fini =>
    obtain ⟨t',taken',coherent'⟩ := coherent.fini allowed
    obtain rfl := Option.some.inj (taken'.symm.trans taken)
    exact .inr ⟨⟨Handoff.finiStep_returned taken,outstanding,coherent'⟩,Nat.le_of_eq (fini_rank allowed taken)⟩

end Coherent

/-- An answer wakes its handler, whatever wake-ups come without a signal: until the
handler returns one of the threads can go on, and it has returned after eleven
statements of theirs, and two more for each of these wake-ups. -/
theorem answered_returns (stocked : Stocked b) (noTimer : linfo.timerFn = false)
    (reach : Reach (Handoff.step page compl linfo) (HandoffStep.Allowed compl linfo) (.init b) labels s)
    (answered : s.returned.length < s.http.replies.length)
    (later : Reach (Handoff.step page compl linfo) (HandoffStep.Allowed compl linfo) s labels' t) :
    (t.returned = s.returned → t.serverReady = true ∨ t.completeReady = true) ∧
      (11 + 2 * labels'.countP HandoffStep.wakes ≤ labels'.countP HandoffStep.own →
        s.returned.length < t.returned.length) := by
  obtain ⟨outstanding,current,told,coherent⟩ := reach_coherent stocked noTimer reach
  obtain ⟨part,single⟩ := coherent.talk.single
  have count := coherent.accounts.answered.length_eq
  rw [List.length_append] at count
  obtain ⟨msg,rfl⟩ : ∃ msg, told = [msg] := by
    apply List.length_eq_one_iff.mp
    have := part.length_le
    omega
  obtain rfl : [msg] = current := part.eq_of_length_le (by simpa using single)
  have ranked := later.ranked (fun u => u.returned = s.returned ∧ ∃ outstanding',
    Coherent compl u outstanding' [msg] [msg])
    (fun u => s.returned.length < u.returned.length) HandoffStep.own HandoffStep.wakes 2 Handoff.rank
      ⟨rfl,outstanding,coherent⟩
    (fun label u v reached taken => Nat.lt_of_lt_of_le reached (Handoff.step_returned taken))
    (by
      rintro label u v ⟨same,outstanding',coherent'⟩ permitted taken
      rw [← same]
      rcases coherent'.lowers noTimer permitted taken with reached | ⟨⟨same',kept⟩,lower⟩
      · exact .inl reached
      · exact .inr ⟨⟨same',kept⟩,lower⟩)
  have bound := s.rank_le
  refine ⟨fun same => ?_,fun enough => ?_⟩
  · rcases ranked with reached | ⟨⟨_,outstanding',coherent'⟩,_⟩
    · rw [same] at reached
      exact absurd reached (Nat.lt_irrefl _)
    · exact coherent'.ready
  · rcases ranked with reached | ⟨⟨_,outstanding',coherent'⟩,lower⟩
    · exact reached
    · have := coherent'.rank_pos
      omega

/-- A request without an operation is answered at once. -/
def idleMsg : ClientMsg := ⟨⟨.invalid,0,0,0,0⟩,.plain,3,4⟩

def idleRun : List HandoffStep := [.server,.request idleMsg,.write true,servedRead]

/-- Its handler sleeps before it is answered. -/
def idleReturn : List HandoffStep :=
  [.server,.server,.complete,.complete,.complete,.complete,.complete,.complete,.server,.server,.server]

theorem answered_returns_idle : ∃ s t,
    runChecked (Handoff.step (fun _ _ _ => none) servedCompl bareLoop) HandoffStep.check idleRun
    (.init servedBase) = some s ∧ runChecked (Handoff.step (fun _ _ _ => none) servedCompl bareLoop)
      HandoffStep.check idleReturn s =
    some t ∧ s.returned.length < t.returned.length := by
  obtain ⟨s,ran,view⟩ : ∃ s, runChecked (Handoff.step (fun _ _ _ => none) servedCompl bareLoop)
    HandoffStep.check idleRun
      (.init servedBase) = some s ∧ (s.returned.length,s.http.replies.length,
        (runChecked (Handoff.step (fun _ _ _ => none) servedCompl
        bareLoop) HandoffStep.check idleReturn s).isSome) = (0,1,true) := Option.map_eq_some_iff.mp rfl
  obtain ⟨none,one,rest⟩ : s.returned.length = 0 ∧ s.http.replies.length = 1 ∧
    (runChecked (Handoff.step (fun _ _ _ => .none)
    servedCompl bareLoop) HandoffStep.check idleReturn s).isSome = true := by simpa using view
  obtain ⟨t,later⟩ := Option.isSome_iff_exists.mp rest
  have returns := answered_returns servedBase_stocked rfl
    (.of_checked (fun label _ s => label.check_allowed servedCompl bareLoop s) ran)
    (by omega) (.of_checked (fun label _ s => label.check_allowed servedCompl bareLoop s) later)
  exact ⟨s,t,ran,later,returns.2 (by decide)⟩

/-- In bano_httpd_fini, or through. -/
def MainPc.finishing : MainPc → Bool
  | .setDone | .wakeup | .join | .destroy | .closed => true
  | _ => false

/-- Statements of the thread of the server until it ends, if it polls no further request and none is written. -/
def ServerPc.toEnd : ServerPc → Nat
  | .wait | .lock => 6
  | .check => 5
  | .write | .unlock => 4
  | .poll => 3
  | .test => 2
  | .done => 1
  | .ended => 0

def MainPc.toEnd : MainPc → Nat
  | .setDone => 4
  | .wakeup => 3
  | .join => 2
  | .destroy => 1
  | _ => 0

theorem MainPc.finishing_quiet {main : MainPc} (finishing : main.finishing = true) :
    main.quiet = true ∧ main ≠ .serve := by
  cases main <;> simp [MainPc.finishing,MainPc.quiet] at finishing ⊢

namespace Coherent

/-- bano_httpd_fini goes on until the server is destroyed. -/
theorem fini_finishing (taken : s.finiStep = some t) : t.main.finishing = true := by
  unfold Handoff.finiStep at taken
  split at taken
  · obtain rfl := Option.some.inj taken
    rfl
  · obtain rfl := Option.some.inj taken
    rfl
  · next here =>
    obtain rfl := Option.some.inj taken
    split
    · rw [here]
      rfl
    · rfl
  · split at taken
    · obtain rfl := Option.some.inj taken
      rfl
    · cases taken
  · cases taken

theorem fini_ends (ready : s.finiReady = true) (moves : s.main = .join → s.isDone = false)
    (taken : s.finiStep = some t) :
    t.main.toEnd + t.server.toEnd < s.main.toEnd + s.server.toEnd := by
  obtain ⟨http,pipe,frame,server,main,lock,asleep,isDone,told,asked,returned⟩ := s
  cases main with
  | setDone | wakeup =>
    obtain rfl := Option.some.inj taken
    simp [MainPc.toEnd]
  | join =>
    obtain rfl : isDone = false := moves rfl
    obtain rfl := Option.some.inj taken
    simp [MainPc.toEnd]
  | destroy =>
    simp only [Handoff.finiStep] at taken
    split at taken
    · obtain rfl := Option.some.inj taken
      simp [MainPc.toEnd]
    · cases taken
  | serve | send | lock | store | signal | unlock | closed => simp [Handoff.finiReady] at ready

/-- An answered handler does not wait again, and the thread does not poll once is_done is set. -/
theorem server_ends (coherent : Coherent compl s outstanding current current) (finishing : s.main.finishing = true)
    (isDone : s.isDone = true) (taken : s.serverStep = some t) : t.server.toEnd < s.server.toEnd := by
  obtain ⟨quiet,busy⟩ := MainPc.finishing_quiet finishing
  have talk := coherent.talk
  obtain ⟨http,pipe,frame,server,main,lock,asleep,isDone,told,asked,returned⟩ := s
  simp only at talk isDone quiet busy
  subst isDone
  cases server with
  | test | done =>
    obtain rfl := Option.some.inj taken
    simp [ServerPc.toEnd]
  | lock =>
    simp only [Handoff.serverStep] at taken
    split at taken
    · obtain rfl := Option.some.inj taken
      simp [ServerPc.toEnd]
    · cases taken
  | check =>
    obtain ⟨msg,rfl⟩ := talk.settled (.inl rfl)
    obtain ⟨rfl,_⟩ := talk.arrives quiet fun here => absurd here busy
    obtain rfl := Option.some.inj taken
    simp [ServerPc.toEnd]
  | wait =>
    simp only [Handoff.serverStep] at taken
    split at taken
    · cases taken
    split at taken
    · obtain rfl := Option.some.inj taken
      simp [ServerPc.toEnd]
    · cases taken
  | unlock =>
    obtain ⟨_,_,rfl⟩ := bind_some.mp taken
    simp [ServerPc.toEnd]
  | poll | write | ended => cases taken

/-- A statement takes bano_httpd_fini, or the thread that it waits for, nearer to its end. -/
theorem ends (coherent : Coherent compl s outstanding current current)
    (finishing : s.main.finishing = true) (page : PageOf)
    (linfo : LoopInfo) : s.main = .closed ∨ ∃ label t, label.Allowed compl linfo s ∧
    Handoff.step page compl linfo label s = some t ∧
      (t.main.finishing = true ∧ ∃ outstanding' current', Coherent compl t outstanding' current' current') ∧
      t.main.toEnd + t.server.toEnd < s.main.toEnd + s.server.toEnd := by
  by_cases closed : s.main = .closed
  · exact .inl closed
  refine .inr ?_
  by_cases waits : s.main = .join ∧ s.isDone = true
  · obtain ⟨main,isDone⟩ := waits
    have goes : s.serverReady = true → ∃ label t, label.Allowed compl linfo s ∧
      Handoff.step page compl linfo label s = some t ∧
        (t.main.finishing = true ∧ ∃ outstanding' current', Coherent compl t outstanding' current' current') ∧
        t.main.toEnd + t.server.toEnd < s.main.toEnd + s.server.toEnd := by
      intro ready
      obtain ⟨t,taken,outcome⟩ := coherent.server ready
      have same := (Handoff.serverStep_kept taken).1
      refine ⟨.server,t,ready,taken,⟨by rw [same]; exact finishing,?_⟩,?_⟩
      · rcases outcome with ⟨coherent',_⟩ | ⟨coherent',_⟩
        · exact ⟨outstanding,current,coherent'⟩
        · exact ⟨outstanding,[],coherent'⟩
      · rw [same]
        exact Nat.add_lt_add_left (coherent.server_ends finishing isDone taken) _
    cases pc : s.server with
    | test | check | unlock | done =>
      rw [← pc]
      exact goes (by simp [Handoff.serverReady,pc])
    | lock | wait =>
      rw [← pc]
      obtain ⟨msg,rfl⟩ := coherent.talk.settled (by simp [pc,ServerPc.awaits])
      rcases coherent.ready with ready | busy
      · exact goes ready
      · simp [Handoff.completeReady,main] at busy
    | poll =>
      have permitted : HandoffStep.polled.Allowed compl linfo s := pc
      obtain ⟨_,_,_,_,_,rfl,_⟩ := coherent.talk.absent (by rw [pc]; rfl)
      obtain ⟨t,current',taken,coherent'⟩ := coherent.polls page permitted (.inl rfl)
      obtain rfl : { s with server := .test } = t := by simpa [Handoff.step,pc] using taken
      obtain ⟨_,_,_,_,_,rfl,_⟩ := coherent'.talk.absent rfl
      exact ⟨.polled,_,permitted,taken,⟨finishing,outstanding,[],coherent'⟩,by simp [ServerPc.toEnd]⟩
    | write =>
      have permitted : (HandoffStep.write false).Allowed compl linfo s := pc
      have talk := coherent.talk
      rw [pc] at talk
      obtain ⟨_,frame,_,_,_,_,rfl,_⟩ := talk.writes
      obtain ⟨t,current',taken,coherent'⟩ := coherent.polls page permitted (.inr (.inr ⟨false,rfl⟩))
      obtain rfl : { s with server := .poll, frame := none } = t := by simpa [Handoff.step,pc,frame] using taken
      obtain ⟨_,_,_,_,_,rfl,_⟩ := coherent'.talk.absent rfl
      exact ⟨.write false,_,permitted,taken,⟨finishing,outstanding,[],coherent'⟩,by simp [ServerPc.toEnd]⟩
    | ended =>
      rw [(coherent.ending.ended pc).1] at isDone
      cases isDone
  · have ready : s.finiReady = true := by
      cases main : s.main <;> simp [main,MainPc.finishing,Handoff.finiReady] at finishing closed ⊢
    obtain ⟨t,taken,coherent'⟩ := coherent.fini ready
    exact ⟨.fini,t,ready,taken,⟨fini_finishing taken,outstanding,current,coherent'⟩,
      fini_ends ready (fun main => by simpa [main] using waits) taken⟩

end Coherent

end Bano
