import Bano.Clients
import Bano.Lib.Rank

/-! The two threads of the base with its HTTP server: the thread of the server, which hands
each request to the main thread over a pipe and waits for its answer, and the main thread,
which runs the loop and stores the answer where the other one waits. -/
namespace Bano

open Lib

/-- What a handler finds in its compl_err until it is answered: 0xdeadbeef as an int. -/
def invalidComplErr : Int := -559038737

inductive Thread where
  | main
  | server
  deriving DecidableEq

/-- The next statement of the server thread, in server_thread_entry, or in on_event from `write` to `unlock`. -/
inductive ServerPc where
  | test
  | poll
  | write
  | lock
  | check
  | wait
  | unlock
  | done
  | ended
  deriving DecidableEq

/-- The next statement of the main thread: the loop, bano_httpd_complete_msg from
`send` to `unlock`, then bano_httpd_fini. -/
inductive MainPc where
  | serve
  | send (r : HttpdReply)
  | lock (r : HttpdReply)
  | store (r : HttpdReply)
  | signal
  | unlock
  | setDone
  | wakeup
  | join
  | destroy
  | closed
  deriving DecidableEq

/-- The locals of on_event, in memory until it returns. -/
structure EventFrame where
  msg : ClientMsg
  complErr : Int

/-- The first `told` answers of the loop were handed over. `written` and `returned` record the requests
that were written to the pipe, and those whose handlers returned with their answer. -/
structure Handoff where
  http : HttpLoop
  pipe : List ClientMsg
  frame : Option EventFrame
  server : ServerPc
  main : MainPc
  lock : Option Thread
  asleep : Bool
  isDone : Bool
  told : Nat
  written : List ClientMsg
  returned : List ClientMsg

inductive HandoffStep where
  /-- mg_poll_server calls on_event for a request. -/
  | request (msg : ClientMsg)
  /-- mg_poll_server returns. -/
  | polled
  | write (ok : Bool)
  /-- A wake-up without a signal. -/
  | wake
  | server
  | loop (label : Label)
  | read (li : Ptr) (env : HttpEnv)
  | complete
  | close
  | fini

/-- bano_httpd_init, for a base in which no request was read yet. -/
def Handoff.init (b : Base) : Handoff :=
  ⟨⟨⟨b,none,.idle⟩,.empty,[]⟩,[],none,.test,.serve,none,false,false,0,[],[]⟩

namespace Handoff

def serverStep (s : Handoff) : Option Handoff :=
  match s.server with
  | .test => some { s with server := if s.isDone then .done else .poll }
  | .lock => if s.lock = none then some { s with lock := some .server, server := .check } else none
  | .check => do
    let f ← s.frame
    if f.complErr = invalidComplErr then some { s with lock := none, asleep := true, server := .wait }
    else some { s with server := .unlock }
  -- pthread_cond_wait returns with the lock
  | .wait =>
    if s.asleep then none
    else if s.lock = none then some { s with lock := some .server, server := .check }
    else none
  | .unlock => do
    let f ← s.frame
    some { s with lock := none, server := .poll, frame := none, returned := s.returned ++ [f.msg] }
  | .done => some { s with isDone := false, server := .ended }
  | .poll | .write | .ended => none

/-- bano_httpd_complete_msg, for the next answer of the loop. A fault is a connection whose
handler does not wait, or a result that no handler's frame has. -/
def completeStep (s : Handoff) : Option Handoff :=
  match s.main with
  | .serve => do
    let r ← s.http.replies[s.told]?
    some { s with main := .send r }
  | .send r => do
    let f ← s.frame
    if f.msg.conn = r.conn then some { s with main := .lock r } else none
  | .lock r => if s.lock = none then some { s with lock := some .main, main := .store r } else none
  | .store r => do
    let f ← s.frame
    if f.msg.complErr = r.complErr then
      some { s with frame := some { f with complErr := r.err }, main := .signal } else none
  | .signal => some { s with asleep := false, main := .unlock }
  | .unlock => some { s with lock := none, told := s.told + 1, main := .serve }
  | _ => none

/-- bano_httpd_fini. A fault is a thread that still runs when the server is destroyed. -/
def finiStep (s : Handoff) : Option Handoff :=
  match s.main with
  | .setDone => some { s with isDone := true, main := .wakeup }
  | .wakeup => some { s with main := .join }
  -- usleep while is_done is 1
  | .join => some (if s.isDone then s else { s with main := .destroy })
  | .destroy => if s.server = .ended ∧ s.lock = none then some { s with main := .closed } else none
  | _ => none

variable (page : PageOf) (compl : HttpdCompl) (linfo : LoopInfo)

def step : HandoffStep → Handoff → Option Handoff
  | .request msg, s => if s.server = .poll
      then some { s with server := .write, frame := some ⟨msg,invalidComplErr⟩ } else none
  | .polled, s => if s.server = .poll then some { s with server := .test } else none
  | .write ok, s => do
    let f ← s.frame
    if s.server = .write then
      if ok then some { s with server := .lock, pipe := s.pipe ++ [f.msg], written := s.written ++ [f.msg] }
      -- the client is told -1 at once
      else some { s with server := .poll, frame := none }
    else none
  | .wake, s => some { s with asleep := false }
  | .server, s => s.serverStep
  | .loop label, s => do
    let http ← HttpLoop.step page compl linfo (.loop label) s.http
    some { s with http := http }
  | .read li env, s =>
    match s.pipe with
    | [] => none
    | msg :: rest => do
      let http ← HttpLoop.step page compl linfo (.request li env msg) s.http
      some { s with http := http, pipe := rest }
  | .complete, s => s.completeStep
  | .close, s => some { s with main := .setDone }
  | .fini, s => s.finiStep

/-- The server thread can take its next statement: it is not in
mg_poll_server or write, not asleep, and the lock is free for it. -/
def serverReady (s : Handoff) : Bool :=
  match s.server with
  | .test | .check | .unlock | .done => true
  | .lock => s.lock = none
  | .wait => !s.asleep && s.lock = none
  | .poll | .write | .ended => false

/-- The main thread is in bano_httpd_complete_msg or has an answer to hand over, and the lock is free for it. -/
def completeReady (s : Handoff) : Bool :=
  match s.main with
  | .serve => s.told < s.http.replies.length
  | .lock _ => s.lock = none
  | .send _ | .store _ | .signal | .unlock => true
  | _ => false

def finiReady (s : Handoff) : Bool :=
  match s.main with
  | .setDone | .wakeup | .join | .destroy => true
  | _ => false

/-- The main thread is between two steps of the loop. -/
def AtLoop (s : Handoff) : Prop := s.main = .serve ∧ s.told = s.http.replies.length

end Handoff

/-- The steps that the scheduler can choose, with allocations and writes of the loop that succeed. -/
def HandoffStep.Allowed (compl : HttpdCompl) (linfo : LoopInfo) : HandoffStep → Handoff → Prop
  | .request _, s => s.server = .poll
  | .polled, s => s.server = .poll
  | .write _, s => s.server = .write
  | .wake, s => s.server = .wait
  | .server, s => s.serverReady = true
  | .loop label, s => s.AtLoop ∧ (HttpStep.loop label).Allowed compl linfo s.http
  | .read li env, s => s.AtLoop ∧ ∃ msg rest, s.pipe = msg :: rest ∧
      (HttpStep.request li env msg).Allowed compl linfo s.http
  | .complete, s => s.completeReady = true
  | .close, s => s.AtLoop
  | .fini, s => s.finiReady = true

/-- on_event waits for the answer. -/
def ServerPc.awaits : ServerPc → Bool
  | .lock | .check | .wait => true
  | _ => false

/-- Outside of on_event. -/
def ServerPc.away : ServerPc → Bool
  | .test | .poll | .done | .ended => true
  | _ => false

def ServerPc.locked : ServerPc → Bool
  | .check | .unlock => true
  | _ => false

/-- Outside of bano_httpd_complete_msg. -/
def MainPc.quiet : MainPc → Bool
  | .send _ | .lock _ | .store _ | .signal | .unlock => false
  | _ => true

/-- The answer is not stored yet. -/
def MainPc.holds (r : HttpdReply) : MainPc → Prop
  | .serve => True
  | .send r' | .lock r' | .store r' => r' = r
  | _ => False

def MainPc.locked : MainPc → Bool
  | .store _ | .signal | .unlock => true
  | _ => false

/-- is_done was set. -/
def MainPc.ends : MainPc → Bool
  | .wakeup | .join | .destroy | .closed => true
  | _ => false

/-- How far the one conversation of the threads is: the request in the pipe, outstanding,
answered and to be handed over, stored, or handed over. `current` is the request that was written
and whose handler did not return, `answered` is it with its answer. -/
inductive Talk : ServerPc → MainPc → Option EventFrame → (pipe outstanding : List ClientMsg) →
    (due : List HttpdReply) →
    (current answered : List ClientMsg) → Prop
  | away : pc.away = true → main.quiet = true → Talk pc main none [] [] [] [] []
  | asking (msg : ClientMsg) : pc = .write → main.quiet = true →
      Talk pc main (some ⟨msg,invalidComplErr⟩) [] [] [] [] []
  | piped (msg : ClientMsg) : pc.awaits = true → main.quiet = true →
      Talk pc main (some ⟨msg,invalidComplErr⟩) [msg] [] [] [msg] []
  | outstanding (msg : ClientMsg) : pc.awaits = true → main.quiet = true →
      Talk pc main (some ⟨msg,invalidComplErr⟩) [] [msg] [] [msg] []
  | due (msg : ClientMsg) (r : HttpdReply) : pc.awaits = true → main.holds r → r.answers msg →
      Talk pc main (some ⟨msg,invalidComplErr⟩) [] [] [r] [msg] [msg]
  | stored (msg : ClientMsg) (r : HttpdReply) : pc.awaits = true → main = .signal ∨ main = .unlock → r.answers msg →
      Talk pc main (some ⟨msg,0⟩) [] [] [r] [msg] [msg]
  | told (msg : ClientMsg) : pc.awaits = true ∨ pc = .unlock → main.quiet = true →
      Talk pc main (some ⟨msg,0⟩) [] [] [] [msg] [msg]

/-- Who has the lock, and who is woken: while the handler sleeps its answer
is not stored, or the main thread is about to signal. -/
structure Locked (lock : Option Thread) (asleep : Bool) (server : ServerPc) (main : MainPc)
    (frame : Option EventFrame) : Prop where
  byServer : lock = some .server ↔ server.locked = true
  byMain : lock = some .main ↔ main.locked = true
  sleeps : asleep = true → server = .wait
  alert : asleep = true → main ≠ .signal → ∀ f, frame = some f → f.complErr = invalidComplErr

/-- How far bano_httpd_fini is. -/
structure Ending (isDone : Bool) (server : ServerPc) (main : MainPc) : Prop where
  set : isDone = true → main = .wakeup ∨ main = .join
  seen : server = .done → isDone = true
  ended : server = .ended → isDone = false ∧ main.ends = true
  joined : isDone = false → main.ends = true → server = .ended

structure Coherent (compl : HttpdCompl) (s : Handoff) (outstanding : List (Ptr × ClientMsg))
    (current answered : List ClientMsg) : Prop where
  accounts : Accounts compl s.http (s.returned ++ answered ++ outstanding.map Prod.snd)
    (s.returned ++ answered) outstanding
  talk : Talk s.server s.main s.frame s.pipe (outstanding.map Prod.snd) (s.http.replies.drop s.told) current answered
  written : s.written = s.returned ++ current
  locked : Locked s.lock s.asleep s.server s.main s.frame
  ending : Ending s.isDone s.server s.main

variable {page : PageOf} {compl : HttpdCompl} {linfo : LoopInfo} {s : Handoff} {outstanding : List (Ptr × ClientMsg)}
  {current answered : List ClientMsg}

theorem Locked.awake (byServer : lock = some .server ↔ pc.locked = true)
    (byMain : lock = some .main ↔ main.locked = true) :
    Locked lock false pc main frame := ⟨byServer,byMain,by simp,by simp⟩

namespace Talk

variable {pc pc' : ServerPc} {main main' : MainPc} {frame : Option EventFrame} {pipe asked : List ClientMsg}
  {due : List HttpdReply}

/-- The handler goes on to wait. -/
theorem waits (talk : Talk pc main frame pipe asked due current answered) (awaits : pc.awaits = true)
    (awaits' : pc'.awaits = true) :
    Talk pc' main frame pipe asked due current answered := by
  cases talk with
  | away away => cases pc <;> simp [ServerPc.away,ServerPc.awaits] at away awaits
  | asking _ here => simp [here,ServerPc.awaits] at awaits
  | piped msg _ quiet => exact .piped msg awaits' quiet
  | outstanding msg _ quiet => exact .outstanding msg awaits' quiet
  | due msg r _ holds answers => exact .due msg r awaits' holds answers
  | stored msg r _ here answers => exact .stored msg r awaits' here answers
  | told msg _ quiet => exact .told msg (.inl awaits') quiet

/-- The handler has a frame while it waits. -/
theorem frame_some (talk : Talk pc main frame pipe asked due current answered) (inside : pc.away = false) :
    ∃ f, frame = some f := by
  cases talk with
  | away away => simp [away] at inside
  | _ => exact ⟨_,rfl⟩

/-- The handler finds its answer, which the main thread has handed over. -/
theorem finds (talk : Talk .check main (some f) pipe asked due current answered)
    (unlocked : main.locked = false) (valid : f.complErr ≠ invalidComplErr) :
    Talk .unlock main (some f) pipe asked due current answered := by
  cases talk with
  | asking | piped | outstanding | due => exact absurd rfl valid
  | stored _ _ _ here => rcases here with rfl | rfl <;> simp [MainPc.locked] at unlocked
  | told msg _ quiet => exact .told msg (.inr rfl) quiet

/-- Outside of on_event there is no request. -/
theorem absent (talk : Talk pc main frame pipe asked due current answered) (away : pc.away = true) :
    frame = none ∧ main.quiet = true ∧ pipe = [] ∧ asked = [] ∧ due = [] ∧ current = [] ∧ answered = [] := by
  cases talk with
  | away _ quiet => exact ⟨rfl,quiet,rfl,rfl,rfl,rfl,rfl⟩
  | asking _ here => simp [here,ServerPc.away] at away
  | piped _ waits | outstanding _ waits | due _ _ waits | stored _ _ waits =>
    cases pc <;> simp [ServerPc.away,ServerPc.awaits] at away waits
  | told _ waits => cases pc <;> simp [ServerPc.away,ServerPc.awaits] at away waits

/-- The server thread moves outside of on_event. -/
theorem elsewhere (talk : Talk pc main frame pipe asked due current answered) (away : pc.away = true)
    (away' : pc'.away = true) :
    Talk pc' main frame pipe asked due current answered := by
  obtain ⟨rfl,quiet,rfl,rfl,rfl,rfl,rfl⟩ := talk.absent away
  exact .away away' quiet

/-- A request that is not written yet. -/
theorem writes (talk : Talk .write main frame pipe asked due current answered) :
    ∃ msg, frame = some ⟨msg,invalidComplErr⟩ ∧
    main.quiet = true ∧ pipe = [] ∧ asked = [] ∧ due = [] ∧ current = [] ∧ answered = [] := by
  cases talk with
  | away away => simp [ServerPc.away] at away
  | asking msg _ quiet => exact ⟨msg,rfl,quiet,rfl,rfl,rfl,rfl,rfl⟩
  | piped _ waits | outstanding _ waits | due _ _ waits | stored _ _ waits => simp [ServerPc.awaits] at waits
  | told _ waits => simp [ServerPc.awaits] at waits

/-- The handler that returns was answered. -/
theorem returns (talk : Talk .unlock main frame pipe asked due current answered) :
    ∃ msg, frame = some ⟨msg,0⟩ ∧ main.quiet = true ∧ pipe = [] ∧ asked = [] ∧ due = [] ∧
      current = [msg] ∧ answered = [msg] := by
  cases talk with
  | away away => simp [ServerPc.away] at away
  | asking _ here => cases here
  | piped _ waits | outstanding _ waits | due _ _ waits | stored _ _ waits => simp [ServerPc.awaits] at waits
  | told msg _ quiet => exact ⟨msg,rfl,quiet,rfl,rfl,rfl,rfl,rfl⟩

/-- The main thread moves outside of bano_httpd_complete_msg. -/
theorem goes (talk : Talk pc main frame pipe asked due current answered) (quiet : main.quiet = true)
    (none : main = .serve → due = [])
    (quiet' : main'.quiet = true) : Talk pc main' frame pipe asked due current answered := by
  cases talk with
  | away away => exact .away away quiet'
  | asking msg here => exact .asking msg here quiet'
  | piped msg awaits => exact .piped msg awaits quiet'
  | outstanding msg awaits => exact .outstanding msg awaits quiet'
  | told msg awaits => exact .told msg awaits quiet'
  | due msg r awaits holds => cases main <;> simp [MainPc.quiet,MainPc.holds] at quiet holds none
  | stored msg r awaits here => rcases here with rfl | rfl <;> cases quiet

/-- An answer that is not stored is that of the handler that waits. -/
theorem holds (talk : Talk pc main frame pipe asked due current answered) (busy : main.quiet = false ∨ due ≠ [])
    (early : main ≠ .signal ∧ main ≠ .unlock) : ∃ msg r, frame = some ⟨msg,invalidComplErr⟩ ∧
    pc.awaits = true ∧ main.holds r ∧
      r.answers msg ∧ pipe = [] ∧ asked = [] ∧ due = [r] ∧ current = [msg] ∧ answered = [msg] := by
  cases talk with
  | away _ quiet | asking _ _ quiet | piped _ _ quiet | outstanding _ _ quiet | told _ _ quiet => simp [quiet] at busy
  | due msg r awaits holds answers => exact ⟨msg,r,rfl,awaits,holds,answers,rfl,rfl,rfl,rfl,rfl⟩
  | stored _ _ _ here => exact absurd here (by simp [early])

/-- An answer that is stored is handed over. -/
theorem stores (talk : Talk pc main frame pipe asked due current answered) (here : main = .signal ∨ main = .unlock) :
    ∃ msg r, frame = some ⟨msg,0⟩ ∧ pc.awaits = true ∧ r.answers msg ∧ pipe = [] ∧ asked = [] ∧
      due = [r] ∧ current = [msg] ∧
      answered = [msg] := by
  cases talk with
  | away _ quiet | asking _ _ quiet | piped _ _ quiet | outstanding _ _ quiet | told _ _ quiet =>
    rcases here with rfl | rfl <;> simp [MainPc.quiet] at quiet
  | due _ _ _ holds => rcases here with rfl | rfl <;> simp [MainPc.holds] at holds
  | stored msg r awaits _ answers => exact ⟨msg,r,rfl,awaits,answers,rfl,rfl,rfl,rfl,rfl⟩

/-- Of the one request at most that its handler waits for. -/
theorem single (talk : Talk pc main frame pipe asked due current answered) : answered <+: current ∧
    current.length ≤ 1 := by
  cases talk with
  | away | asking => exact ⟨List.prefix_rfl,Nat.zero_le _⟩
  | piped | outstanding => exact ⟨List.nil_prefix,Nat.le_refl _⟩
  | due | stored | told => exact ⟨List.prefix_rfl,Nat.le_refl _⟩

/-- A request that is written has its handler. -/
theorem inside (talk : Talk pc main frame pipe asked due [msg] answered) : pc.awaits = true ∨ pc = .unlock := by
  cases talk with
  | piped _ waits | outstanding _ waits | due _ _ waits | stored _ _ waits => exact .inl waits
  | told _ waits => exact waits

/-- The answer of a handler is on its way, or its handler can find it. -/
theorem arrives (talk : Talk pc main frame pipe asked due [msg] [msg]) (quiet : main.quiet = true)
    (none : main = .serve → due = []) :
    frame = some ⟨msg,0⟩ ∧ pipe = [] ∧ asked = [] ∧ due = [] := by
  cases talk with
  | due _ _ _ holds => cases main <;> simp [MainPc.quiet,MainPc.holds] at quiet holds none
  | stored _ _ _ here => rcases here with rfl | rfl <;> cases quiet
  | told => exact ⟨rfl,rfl,rfl,rfl⟩

/-- A handler whose answer is stored has it, once the main thread is through. -/
theorem valid (talk : Talk pc main (some ⟨msg,0⟩) pipe asked due current answered) (quiet : main.quiet = true) :
    due = [] ∧ answered = [msg] := by
  cases talk with
  | stored _ _ _ here => rcases here with rfl | rfl <;> cases quiet
  | told => exact ⟨rfl,rfl⟩

/-- Without an open request, the handler that waits is answered. -/
theorem settled (talk : Talk pc main frame pipe asked due current current) (waits : pc.awaits = true ∨ pc = .unlock) :
    ∃ msg, current = [msg] := by
  cases talk with
  | away away =>
    rcases waits with awaits | rfl
    · cases pc <;> simp [ServerPc.away,ServerPc.awaits] at away awaits
    · cases away
  | asking _ here => simp [here,ServerPc.awaits] at waits
  | due msg | stored msg | told msg => exact ⟨msg,rfl⟩

end Talk

theorem Locked.init : Locked none false .test .serve none := by
  constructor <;> simp [ServerPc.locked,MainPc.locked]

theorem Ending.init : Ending false .test .serve := by
  constructor <;> simp [MainPc.ends]

/-- Nothing happens to the thread of the server before. -/
theorem Ending.serves (ending : Ending isDone pc main) (before : main.ends = false) (before' : main'.ends = false) :
    Ending isDone pc main' := by
  have still : isDone ≠ true := by
    intro same
    rcases ending.set same with rfl | rfl <;> cases before
  refine ⟨fun same => absurd same still,fun here => absurd (ending.seen here) still,fun here => ?_,fun _ here => ?_⟩
  · exact nomatch before.symm.trans (ending.ended here).2
  · exact nomatch before'.symm.trans here

/-- The thread of the server runs on. -/
theorem Ending.runs (ending : Ending isDone pc main) (alive : pc ≠ .ended) (done : pc' ≠ .done)
    (alive' : pc' ≠ .ended) :
    Ending isDone pc' main :=
  ⟨ending.set,fun here => absurd here done,fun here => absurd here alive',
    fun same here => absurd (ending.joined same here) alive⟩

/-- is_done is set while the thread of the server runs. -/
theorem Ending.sets (ending : Ending isDone pc .setDone) : Ending true pc .wakeup :=
  ⟨fun _ => .inl rfl,fun _ => rfl,fun here => (nomatch (ending.ended here).2),fun same => (nomatch same)⟩

theorem Stocked.coherent (stocked : Stocked b) (compl : HttpdCompl) : Coherent compl (.init b) [] [] [] :=
  ⟨stocked.accounts compl,.away rfl rfl,rfl,.init,.init⟩

/-- Of one request, one is answered or one is outstanding. -/
theorem split_one {gone outstanding' : List (Ptr × ClientMsg)} (split : (gone ++ outstanding').Perm [e]) :
    gone = [] ∧ outstanding' = [e] ∨ gone = [e] ∧ outstanding' = [] :=
  List.append_eq_singleton_iff.mp (List.perm_singleton.mp split)

theorem map_snd_singleton {es : List (Ptr × ClientMsg)} (one : es.map Prod.snd = [msg]) : ∃ p, es = [(p,msg)] := by
  obtain ⟨e,rfl,rfl⟩ := List.map_eq_singleton_iff.mp one
  exact ⟨e.1,rfl⟩

namespace Coherent

/-- Between two steps of the loop no answer is to be handed over. -/
theorem atLoop (here : s.AtLoop) : s.http.replies.drop s.told = [] := by
  rw [here.2,List.drop_length]

/-- The request of the handler that waits was read: it is outstanding, or its answer is handed over next. -/
theorem answered_or (accounts : AccountsFor compl s.http http (s.returned ++ answered ++ outstanding.map Prod.snd)
      (s.returned ++ answered) new outstanding gone outstanding') (here : s.AtLoop) (none : answered = [])
    (one : outstanding.map Prod.snd ++ new = [msg]) (waits : s.server.awaits = true)
    (quiet : s.main.quiet = true) : ∃ answered',
    Accounts compl http (s.returned ++ answered' ++ outstanding'.map Prod.snd)
    (s.returned ++ answered') outstanding' ∧
      Talk s.server s.main (some ⟨msg,invalidComplErr⟩) [] (outstanding'.map Prod.snd) (http.replies.drop s.told)
      [msg] answered' := by
  obtain ⟨rs,replies,told⟩ := accounts.told
  obtain ⟨added,same,split⟩ := accounts.split
  have due : http.replies.drop s.told = rs := by rw [replies,here.2,List.drop_left]
  have single : (outstanding ++ added).map Prod.snd = [msg] := by rw [List.map_append,same,one]
  obtain ⟨p,single⟩ := map_snd_singleton single
  rw [single] at split
  have balance := accounts.accounts
  subst none
  rw [due]
  rcases split_one split with ⟨rfl,rfl⟩ | ⟨rfl,rfl⟩
  · obtain rfl := List.forall₂_nil_right_iff.mp told
    refine ⟨[],?_,.outstanding msg waits quiet⟩
    simpa [List.append_assoc,one] using balance
  · obtain ⟨r,_,answers,none,rfl⟩ := List.forall₂_cons_right_iff.mp told
    obtain rfl := List.forall₂_nil_right_iff.mp none
    refine ⟨[msg],?_,.due msg r waits (by rw [here.1]; trivial) answers⟩
    simpa [List.append_assoc,one] using balance

/-- Without a request no step of the loop answers. -/
theorem unasked (accounts : AccountsFor compl s.http http msgs done [] outstanding gone outstanding')
    (here : s.AtLoop)
    (none : outstanding = []) : Accounts compl http msgs done [] ∧ http.replies.drop s.told = [] ∧
    outstanding' = [] := by
  obtain ⟨rs,replies,told⟩ := accounts.told
  obtain ⟨added,same,split⟩ := accounts.split
  obtain rfl := List.map_eq_nil_iff.mp same
  rw [none] at split
  obtain ⟨rfl,rfl⟩ := List.append_eq_nil_iff.mp (List.perm_nil.mp split)
  obtain rfl := List.forall₂_nil_right_iff.mp told
  refine ⟨by simpa using accounts.accounts,?_,rfl⟩
  rw [replies,List.append_nil,atLoop here]

theorem loop (coherent : Coherent compl s outstanding current answered) (page : PageOf)
    (noTimer : linfo.timerFn = false)
    (allowed : (HandoffStep.loop label).Allowed compl linfo s) : ∃ s' outstanding' answered',
    Handoff.step page compl linfo (.loop label) s = some s' ∧ Coherent compl s' outstanding' current answered' := by
  obtain ⟨here,allowed⟩ := allowed
  obtain ⟨http,gone,outstanding',taken,accounts⟩ := coherent.accounts.step page noTimer allowed
  have talk := coherent.talk
  have written := coherent.written
  rw [atLoop here] at talk
  have silent : outstanding = [] → ∃ outstanding' answered', Handoff.step page compl linfo (.loop label) s =
      some { s with http := http } ∧ Coherent compl { s with http := http } outstanding' current answered' := by
    intro none
    obtain ⟨same,untold,_⟩ := unasked accounts here none
    subst none
    refine ⟨[],answered,by simp [Handoff.step,taken],same,?_,written,coherent.locked,coherent.ending⟩
    rw [untold]
    exact talk
  generalize asked : outstanding.map Prod.snd = msgs at talk
  generalize frame : s.frame = f at talk
  generalize pipe : s.pipe = q at talk
  cases talk with
  | away | asking | piped | told => exact ⟨_,silent (List.map_eq_nil_iff.mp asked)⟩
  | outstanding msg waits quiet =>
    obtain ⟨answered',accounts',talk'⟩ := answered_or accounts here rfl (by rw [asked]; rfl) waits quiet
    refine ⟨{ s with http := http },outstanding',answered',by simp [Handoff.step,taken],accounts',?_,
      written,coherent.locked,
      coherent.ending⟩
    rw [frame,pipe]
    exact talk'

theorem read (coherent : Coherent compl s outstanding current answered) (page : PageOf)
    (noTimer : linfo.timerFn = false)
    (allowed : (HandoffStep.read li env).Allowed compl linfo s) : ∃ s' outstanding' answered',
    Handoff.step page compl linfo (.read li env) s = some s' ∧ Coherent compl s' outstanding' current answered' := by
  obtain ⟨here,msg,rest,pipe,allowed⟩ := allowed
  obtain ⟨http,gone,outstanding',taken,accounts⟩ := coherent.accounts.step page noTimer allowed
  have talk := coherent.talk
  have written := coherent.written
  rw [atLoop here,pipe] at talk
  generalize asked : outstanding.map Prod.snd = msgs at talk
  generalize frame : s.frame = f at talk
  cases talk with
  | piped _ waits quiet =>
    obtain ⟨answered',accounts',talk'⟩ := answered_or accounts here rfl (by rw [asked]; rfl) waits quiet
    refine ⟨{ s with http := http, pipe := [] },outstanding',answered',by simp [Handoff.step,pipe,taken],
      accounts',?_,written,
      coherent.locked,coherent.ending⟩
    rw [frame]
    exact talk'

/-- Neither thread has the lock, when it is free. -/
theorem free (coherent : Coherent compl s outstanding current answered) (free : s.lock = none) :
    s.server.locked = false ∧ s.main.locked = false := by
  have locked := coherent.locked
  have byServer := locked.byServer
  have byMain := locked.byMain
  rw [free] at byServer byMain
  simpa using And.intro byServer byMain

/-- The thread of the server goes on, and its handler returns only with its answer. -/
theorem server (coherent : Coherent compl s outstanding current answered) (ready : s.serverReady = true) :
    ∃ s', s.serverStep = some s' ∧ (Coherent compl s' outstanding current answered ∧ s'.returned = s.returned ∨
      Coherent compl s' outstanding [] [] ∧ ∃ msg, current = [msg] ∧ answered = [msg] ∧
      s'.returned = s.returned ++ [msg]) := by
  have unlocked := coherent.free
  obtain ⟨accounts,talk,written,locked,ending⟩ := coherent
  obtain ⟨http,pipe,frame,server,main,lock,asleep,isDone,told,asked,returned⟩ := s
  simp only at accounts talk written locked ending unlocked
  have awake : server ≠ .wait → asleep = false := fun other => by simpa using mt locked.sleeps other
  cases server with
  | test =>
    obtain rfl := awake (by simp)
    cases isDone with
    | false =>
      exact ⟨_,rfl,.inl ⟨⟨accounts,talk.elsewhere rfl rfl,written,.awake locked.byServer locked.byMain,
        ending.runs (by simp) (by simp) (by simp)⟩,rfl⟩⟩
    | true =>
      exact ⟨_,rfl,.inl ⟨⟨accounts,talk.elsewhere rfl rfl,written,.awake locked.byServer locked.byMain,
        ending.set,fun _ => rfl,fun here => (nomatch here),fun same => (nomatch same)⟩,rfl⟩⟩
  | lock =>
    obtain rfl := awake (by simp)
    obtain rfl : lock = none := by simpa [Handoff.serverReady] using ready
    have main := (unlocked rfl).2
    exact ⟨_,rfl,.inl ⟨⟨accounts,talk.waits rfl rfl,written,.awake (by simp [ServerPc.locked]) (by simp [main]),
      ending.runs (by simp) (by simp) (by simp)⟩,rfl⟩⟩
  | check =>
    obtain rfl := awake (by simp)
    obtain rfl : lock = some .server := locked.byServer.mpr rfl
    have unlocked : main.locked = false := by simpa using locked.byMain
    obtain ⟨f,rfl⟩ := talk.frame_some rfl
    by_cases invalid : f.complErr = invalidComplErr
    · refine ⟨⟨http,pipe,some f,.wait,main,none,true,isDone,told,asked,returned⟩,by simp [Handoff.serverStep,invalid],
        .inl ⟨⟨accounts,talk.waits rfl rfl,written,⟨by simp [ServerPc.locked],by simp [unlocked],fun _ => rfl,?_⟩,
        ending.runs (by simp) (by simp) (by simp)⟩,rfl⟩⟩
      rintro _ _ _ same
      exact Option.some.inj same ▸ invalid
    · exact ⟨⟨http,pipe,some f,.unlock,main,some .server,false,isDone,told,asked,returned⟩,
        by simp [Handoff.serverStep,invalid],
        .inl ⟨⟨accounts,talk.finds unlocked invalid,written,.awake (by simp [ServerPc.locked]) (by simp [unlocked]),
        ending.runs (by simp) (by simp) (by simp)⟩,rfl⟩⟩
  | wait =>
    simp only [Handoff.serverReady,Bool.and_eq_true,Bool.not_eq_true',decide_eq_true_eq] at ready
    obtain ⟨rfl,rfl⟩ := ready
    have main := (unlocked rfl).2
    exact ⟨_,rfl,.inl ⟨⟨accounts,talk.waits rfl rfl,written,.awake (by simp [ServerPc.locked]) (by simp [main]),
      ending.runs (by simp) (by simp) (by simp)⟩,rfl⟩⟩
  | unlock =>
    obtain rfl := awake (by simp)
    obtain rfl : lock = some .server := locked.byServer.mpr rfl
    have unlocked : main.locked = false := by simpa using locked.byMain
    obtain ⟨msg,rfl,quiet,rfl,none,due,rfl,rfl⟩ := talk.returns
    refine ⟨_,rfl,.inr ⟨⟨?_,?_,by simpa using written,.awake (by simp [ServerPc.locked]) (by simp [unlocked]),
      ending.runs (by simp) (by simp) (by simp)⟩,msg,rfl,rfl,rfl⟩⟩
    · simpa using accounts
    · show Talk .poll main .none [] _ _ [] []
      rw [none,due]
      exact .away rfl quiet
  | done =>
    obtain rfl := awake (by simp)
    obtain rfl := ending.seen rfl
    refine ⟨_,rfl,.inl ⟨⟨accounts,talk.elsewhere rfl rfl,written,.awake locked.byServer locked.byMain,
      by simp,by simp,fun _ => ⟨rfl,?_⟩,fun _ _ => rfl⟩,rfl⟩⟩
    rcases ending.set rfl with rfl | rfl <;> rfl
  | poll | write | ended => simp [Handoff.serverReady] at ready

theorem complete (coherent : Coherent compl s outstanding current answered) (ready : s.completeReady = true) :
    ∃ s', s.completeStep = some s' ∧ Coherent compl s' outstanding current answered := by
  have unlocked := coherent.free
  obtain ⟨accounts,talk,written,locked,ending⟩ := coherent
  obtain ⟨http,pipe,frame,server,main,lock,asleep,isDone,told,asked,returned⟩ := s
  simp only at accounts talk written locked ending unlocked
  have byMain := locked.byMain
  have byServer := locked.byServer
  cases main with
  | serve =>
    have more : told < http.replies.length := by simpa [Handoff.completeReady] using ready
    obtain ⟨msg,r,rfl,awaits,_,answers,rfl,none,due,rfl,rfl⟩ := talk.holds (.inr (by simp [more])) (by simp)
    have next : http.replies[told]? = some r := by
      rw [← List.head?_drop,due]
      rfl
    refine ⟨⟨http,[],some ⟨msg,invalidComplErr⟩,server,.send r,lock,asleep,isDone,told,asked,returned⟩,
      by simp [Handoff.completeStep,next],accounts,?_,written,
      ⟨byServer,byMain,locked.sleeps,fun sleeps _ => locked.alert sleeps (by simp)⟩,
      ending.serves rfl rfl⟩
    rw [none,due]
    exact .due msg r awaits rfl answers
  | send r =>
    obtain ⟨msg,_,rfl,awaits,rfl,answers,rfl,none,due,rfl,rfl⟩ := talk.holds (.inl rfl) (by simp)
    refine ⟨⟨http,[],some ⟨msg,invalidComplErr⟩,server,.lock r,lock,asleep,isDone,told,asked,returned⟩,
      by simp [Handoff.completeStep,answers.1],accounts,?_,written,
      ⟨byServer,byMain,locked.sleeps,fun sleeps _ => locked.alert sleeps (by simp)⟩,
      ending.serves rfl rfl⟩
    rw [none,due]
    exact .due msg r awaits rfl answers
  | lock r =>
    obtain rfl : lock = none := by simpa [Handoff.completeReady] using ready
    have free := (unlocked rfl).1
    obtain ⟨msg,_,rfl,awaits,rfl,answers,rfl,none,due,rfl,rfl⟩ := talk.holds (.inl rfl) (by simp)
    refine ⟨⟨http,[],some ⟨msg,invalidComplErr⟩,server,.store r,some .main,asleep,isDone,told,asked,returned⟩,
      by simp [Handoff.completeStep],accounts,?_,written,
      ⟨by simp [free],by simp [MainPc.locked],locked.sleeps,fun sleeps _ => locked.alert sleeps (by simp)⟩,
        ending.serves rfl rfl⟩
    rw [none,due]
    exact .due msg r awaits rfl answers
  | store r =>
    obtain ⟨msg,_,rfl,awaits,rfl,answers,rfl,none,due,rfl,rfl⟩ := talk.holds (.inl rfl) (by simp)
    refine ⟨⟨http,[],some ⟨msg,r.err⟩,server,.signal,lock,asleep,isDone,told,asked,returned⟩,
      by simp [Handoff.completeStep,answers.2.1],accounts,?_,written,
      ⟨byServer,byMain,locked.sleeps,fun _ other => absurd rfl other⟩,
      ending.serves rfl rfl⟩
    rw [none,due,answers.2.2]
    exact .stored msg r awaits (.inl rfl) answers
  | signal =>
    obtain ⟨msg,r,rfl,awaits,answers,rfl,none,due,rfl,rfl⟩ := talk.stores (.inl rfl)
    refine ⟨_,rfl,accounts,?_,written,.awake byServer byMain,ending.serves rfl rfl⟩
    rw [none,due]
    exact .stored msg r awaits (.inr rfl) answers
  | unlock =>
    obtain ⟨msg,r,rfl,awaits,answers,rfl,none,due,rfl,rfl⟩ := talk.stores (.inr rfl)
    obtain rfl : lock = some .main := byMain.mpr rfl
    have free : server.locked = false := by simpa using byServer
    refine ⟨_,rfl,accounts,?_,written,⟨by simp [free],by simp [MainPc.locked],locked.sleeps,?_⟩,ending.serves rfl rfl⟩
    · rw [none,← List.drop_drop,due]
      exact .told msg (.inl awaits) rfl
    · intro sleeps _
      exact locked.alert sleeps (by simp)
  | setDone | wakeup | join | destroy | closed => simp [Handoff.completeReady] at ready

theorem fini (coherent : Coherent compl s outstanding current answered) (ready : s.finiReady = true) :
    ∃ s', s.finiStep = some s' ∧ Coherent compl s' outstanding current answered := by
  obtain ⟨accounts,talk,written,locked,ending⟩ := coherent
  obtain ⟨http,pipe,frame,server,main,lock,asleep,isDone,told,asked,returned⟩ := s
  simp only at accounts talk written locked ending
  have byMain := locked.byMain
  have byServer := locked.byServer
  cases main with
  | setDone =>
    exact ⟨_,rfl,accounts,talk.goes rfl (by simp) rfl,written,
      ⟨byServer,byMain,locked.sleeps,fun sleeps _ => locked.alert sleeps (by simp)⟩,
      ending.sets⟩
  | wakeup =>
    exact ⟨_,rfl,accounts,talk.goes rfl (by simp) rfl,written,
      ⟨byServer,byMain,locked.sleeps,fun sleeps _ => locked.alert sleeps (by simp)⟩,
      fun _ => .inr rfl,ending.seen,ending.ended,ending.joined⟩
  | join =>
    cases isDone with
    | true => exact ⟨_,rfl,accounts,talk,written,locked,ending⟩
    | false =>
      exact ⟨_,rfl,accounts,talk.goes rfl (by simp) rfl,written,
        ⟨byServer,byMain,locked.sleeps,fun sleeps _ => locked.alert sleeps (by simp)⟩,
        by simp,ending.seen,ending.ended,ending.joined⟩
  | destroy =>
    have still : isDone = false := by
      apply Bool.eq_false_iff.mpr
      intro same
      rcases ending.set same with here | here <;> cases here
    obtain rfl := ending.joined still rfl
    have unlocked : lock = none := by
      match lock with
      | none => rfl
      | some .server => cases byServer.mp rfl
      | some .main => cases byMain.mp rfl
    refine ⟨⟨http,pipe,frame,.ended,.closed,lock,asleep,isDone,told,asked,returned⟩,
      by simp [Handoff.finiStep,unlocked],accounts,
      talk.goes rfl (by simp) rfl,written,
        ⟨byServer,byMain,locked.sleeps,fun sleeps _ => locked.alert sleeps (by simp)⟩,
      by simp [still],ending.seen,ending.ended,ending.joined⟩
  | serve | send | lock | store | signal | unlock | closed => simp [Handoff.finiReady] at ready

theorem wake (coherent : Coherent compl s outstanding current answered) :
    Coherent compl { s with asleep := false } outstanding current answered :=
  ⟨coherent.accounts,coherent.talk,coherent.written,
    .awake coherent.locked.byServer coherent.locked.byMain,coherent.ending⟩

/-- bano_close is called between two steps of the loop. -/
theorem close (coherent : Coherent compl s outstanding current answered) (here : s.AtLoop) :
    Coherent compl { s with main := .setDone } outstanding current answered := by
  obtain ⟨accounts,talk,written,locked,ending⟩ := coherent
  have none := atLoop here
  obtain ⟨http,pipe,frame,server,main,lock,asleep,isDone,told,asked,returned⟩ := s
  obtain ⟨rfl,_⟩ : main = .serve ∧ told = http.replies.length := here
  exact ⟨accounts,talk.goes rfl (fun _ => none) rfl,written,⟨locked.byServer,locked.byMain,locked.sleeps,
    fun sleeps _ => locked.alert sleeps (by simp)⟩,ending.serves rfl rfl⟩

/-- What mongoose does, and the pipe. -/
theorem polls (coherent : Coherent compl s outstanding current answered) (page : PageOf)
    (allowed : label.Allowed compl linfo s)
    (other : label = .polled ∨ (∃ msg, label = .request msg) ∨ ∃ ok, label = .write ok) : ∃ s' current',
    Handoff.step page compl linfo label s = some s' ∧ Coherent compl s' outstanding current' answered := by
  obtain ⟨accounts,talk,written,locked,ending⟩ := coherent
  obtain ⟨http,pipe,frame,server,main,lock,asleep,isDone,told,asked,returned⟩ := s
  simp only at accounts talk written locked ending
  have byMain := locked.byMain
  have byServer := locked.byServer
  have awake : server ≠ .wait → asleep = false := fun other => by simpa using mt locked.sleeps other
  rcases other with rfl | ⟨msg,rfl⟩ | ⟨ok,rfl⟩
  · obtain rfl : server = .poll := allowed
    obtain rfl := awake (by simp)
    exact ⟨_,_,rfl,accounts,talk.elsewhere rfl rfl,written,.awake byServer byMain,
      ending.runs (by simp) (by simp) (by simp)⟩
  · obtain rfl : server = .poll := allowed
    obtain rfl := awake (by simp)
    obtain ⟨rfl,quiet,rfl,none,due,rfl,rfl⟩ := talk.absent rfl
    refine ⟨_,_,rfl,accounts,?_,written,.awake byServer byMain,ending.runs (by simp) (by simp) (by simp)⟩
    rw [none,due]
    exact .asking msg rfl quiet
  · obtain rfl : server = .write := allowed
    obtain rfl := awake (by simp)
    obtain ⟨msg,rfl,quiet,rfl,none,due,rfl,rfl⟩ := talk.writes
    cases ok with
    | false =>
      refine ⟨_,[],rfl,accounts,?_,written,.awake byServer byMain,ending.runs (by simp) (by simp) (by simp)⟩
      rw [none,due]
      exact .away rfl quiet
    | true =>
      refine ⟨_,[msg],rfl,accounts,?_,by simpa using written,.awake byServer byMain,
        ending.runs (by simp) (by simp) (by simp)⟩
      rw [none,due]
      exact .piped msg rfl quiet

theorem step (coherent : Coherent compl s outstanding current answered) (page : PageOf)
    (noTimer : linfo.timerFn = false)
    (allowed : label.Allowed compl linfo s) : ∃ s' outstanding' current' answered',
    Handoff.step page compl linfo label s = some s' ∧ Coherent compl s' outstanding' current' answered' := by
  cases label with
  | loop label =>
    obtain ⟨s',outstanding',answered',taken,coherent'⟩ := coherent.loop page noTimer allowed
    exact ⟨s',outstanding',current,answered',taken,coherent'⟩
  | read li env =>
    obtain ⟨s',outstanding',answered',taken,coherent'⟩ := coherent.read page noTimer allowed
    exact ⟨s',outstanding',current,answered',taken,coherent'⟩
  | server =>
    obtain ⟨s',taken,⟨coherent',_⟩ | ⟨coherent',_⟩⟩ := coherent.server allowed
    · exact ⟨s',outstanding,current,answered,taken,coherent'⟩
    · exact ⟨s',outstanding,[],[],taken,coherent'⟩
  | complete =>
    obtain ⟨s',taken,coherent'⟩ := coherent.complete allowed
    exact ⟨s',outstanding,current,answered,taken,coherent'⟩
  | fini =>
    obtain ⟨s',taken,coherent'⟩ := coherent.fini allowed
    exact ⟨s',outstanding,current,answered,taken,coherent'⟩
  | wake => exact ⟨_,outstanding,current,answered,rfl,coherent.wake⟩
  | close => exact ⟨_,outstanding,current,answered,rfl,coherent.close allowed⟩
  | request msg | polled | write ok =>
    obtain ⟨s',current',taken,coherent'⟩ := coherent.polls page allowed (by simp)
    exact ⟨s',outstanding,current',answered,taken,coherent'⟩

end Coherent

/-- Every state of a run of the two threads. -/
theorem reach_coherent (stocked : Stocked b) (noTimer : linfo.timerFn = false)
    (reach : Reach (Handoff.step page compl linfo) (HandoffStep.Allowed compl linfo) (.init b) labels s) :
    ∃ outstanding current answered, Coherent compl s outstanding current answered := by
  refine reach.invariant (fun s => ∃ outstanding current answered, Coherent compl s outstanding current answered)
    ⟨_,_,_,stocked.coherent compl⟩ fun label u v kept allowed taken => ?_
  obtain ⟨outstanding,current,answered,coherent⟩ := kept
  obtain ⟨v',outstanding',current',answered',taken',coherent'⟩ := coherent.step page noTimer allowed
  obtain rfl := Option.some.inj (taken.symm.trans taken')
  exact ⟨_,_,_,coherent'⟩

/-- However the two threads are scheduled, the answers are those of the requests in the order in which they were
written, the handlers return in this order, each with its own answer, and at most one request has not returned.
What bano_httpd_complete_msg sends and stores goes to the handler that waits for it, and no step has a fault. -/
theorem handoff_safe (stocked : Stocked b) (noTimer : linfo.timerFn = false)
    (reach : Reach (Handoff.step page compl linfo) (HandoffStep.Allowed compl linfo) (.init b) labels s) :
    (∃ answered, List.Forall₂ HttpdReply.answers s.http.replies answered ∧ s.returned <+: answered ∧
      answered <+: s.written) ∧
      s.written.length ≤ s.returned.length + 1 ∧
      (∀ r, s.main = .send r ∨ s.main = .store r → ∃ f, s.frame = some f ∧ r.answers f.msg ∧
        s.server.awaits = true) ∧
      ∀ label, label.Allowed compl linfo s → ∃ s', Handoff.step page compl linfo label s = some s' := by
  obtain ⟨outstanding,current,answered,coherent⟩ := reach_coherent stocked noTimer reach
  obtain ⟨part,single⟩ := coherent.talk.single
  refine ⟨⟨_,coherent.accounts.answered,List.prefix_append _ _,?_⟩,?_,fun r here => ?_,fun label permitted => ?_⟩
  · rw [coherent.written]
    exact (List.prefix_append_right_inj _).mpr part
  · rw [coherent.written,List.length_append]
    omega
  · have early : s.main.quiet = false ∧ s.main ≠ .signal ∧ s.main ≠ .unlock := by
      rcases here with same | same <;> simp [same,MainPc.quiet]
    obtain ⟨msg,r',frame,awaits,holds,answers,_⟩ := coherent.talk.holds (.inl early.1) early.2
    obtain rfl : r = r' := by
      rcases here with same | same <;> simpa [same,MainPc.holds] using holds
    exact ⟨_,frame,answers,awaits⟩
  · obtain ⟨s',_,_,_,taken,_⟩ := coherent.step page noTimer permitted
    exact ⟨s',taken⟩

/-- A step that the scheduler can choose, and that is none of the loop's. -/
def HandoffStep.check : HandoffStep → Handoff → Bool
  | .request _, s | .polled, s => s.server = .poll
  | .write _, s => s.server = .write
  | .wake, s => s.server = .wait
  | .server, s => s.serverReady
  | .loop _, _ => false
  | .read li _, s => s.main = .serve && s.told = s.http.replies.length && !s.pipe.isEmpty &&
      s.http.loop.control = .idle &&
      ((s.http.loop.base.sockets.data li).bind s.http.loop.base.socketMem.cell).map BanoSocket.type = some .httpd
  | .complete, s => s.completeReady
  | .close, s => s.main = .serve && s.told = s.http.replies.length
  | .fini, s => s.finiReady

theorem HandoffStep.check_allowed (compl : HttpdCompl) (linfo : LoopInfo) (label : HandoffStep) (s : Handoff)
    (passed : label.check s = true) :
    label.Allowed compl linfo s := by
  cases label with
  | request | polled | write | wake =>
    simp only [check,decide_eq_true_eq] at passed
    exact passed
  | server | complete | fini => exact passed
  | loop => cases passed
  | close =>
    simp only [check,Bool.and_eq_true,decide_eq_true_eq] at passed
    exact passed
  | read li env =>
    simp only [check,Bool.and_eq_true,decide_eq_true_eq,Bool.not_eq_true',Option.map_eq_some_iff] at passed
    obtain ⟨⟨⟨⟨serve,told⟩,pipe⟩,idle⟩,⟨type⟩,found,rfl⟩ := passed
    obtain ⟨socket,data,cell⟩ := Option.bind_eq_some_iff.mp found
    obtain ⟨msg,rest,full⟩ := List.exists_cons_of_ne_nil (l := s.pipe) (by simpa using pipe)
    exact ⟨⟨serve,told⟩,msg,rest,full,idle,socket,LinkedList.data_eq_some.mp data,cell⟩

def servedRead : HandoffStep := .read 2 ⟨0,⟨0,0⟩,junkIo,0,none,true,true,true,true,true⟩

/-- The handler of `servedMsg` waits for its answer. -/
theorem handoff_safe_get : ∃ s, runChecked (Handoff.step (fun _ _ _ => none) servedCompl bareLoop) HandoffStep.check
    [.server,.request servedMsg,.write true,servedRead,.server] (.init servedBase) = some s ∧
    s.written = [servedMsg] ∧ ∃ s', Handoff.step (fun _ _ _ => none) servedCompl bareLoop .server s = some s' := by
  obtain ⟨s,ran,view⟩ : ∃ s, runChecked (Handoff.step (fun _ _ _ => none) servedCompl bareLoop) HandoffStep.check
      [.server,.request servedMsg,.write true,servedRead,.server] (.init servedBase) = some s ∧
      (s.written,s.serverReady) = ([servedMsg],true) := Option.map_eq_some_iff.mp rfl
  obtain ⟨written,ready⟩ := Prod.mk.inj view
  have reach := Reach.of_checked (fun label _ s => label.check_allowed servedCompl bareLoop s) ran
  obtain ⟨_,_,_,go⟩ := handoff_safe servedBase_stocked rfl reach
  exact ⟨s,ran,written,go .server ready⟩

end Bano
