import Bano.Housed
import Bano.Progress
import Bano.Serving

/-! The base as its HTTP clients see it, over whole runs: each request that is read is
answered once, or it is outstanding and one io in memory owns it. -/
namespace Bano

open Lib

/-- on_httpd_io_compl with its data, as a callback; it can be told from the callbacks of others. -/
structure HttpdCompl where
  fn : Ptr → Callback
  hod : Callback → Option Ptr
  spec : ∀ f p, hod f = some p ↔ f = fn p

/-- The loop of a base with the data of the ios of its clients, and the answers up to now. -/
structure HttpLoop where
  loop : Loop
  hods : Heap HttpdOpData
  replies : List HttpdReply

def HttpLoop.http (s : HttpLoop) : HttpBase := ⟨s.loop.base,s.hods,s.replies⟩

inductive HttpStep where
  | loop (label : Label)
  | request (li : Ptr) (env : HttpEnv) (msg : ClientMsg)

section

variable (page : PageOf) (compl : HttpdCompl)

/-- What on_httpd_io_compl does for the ios of `b` that complete in the events. -/
def answerEvents (b : Base) : List Event → HttpBase → Option HttpBase
  | [], s => some s
  | .completed io err val :: es, s => do
    let r ← b.ioMem.cell io
    match r.complFn.bind compl.hod with
    | none => answerEvents b es s
    | some hod => do
      let s ← onHttpdIoCompl page s { r with complErr := err, complVal := val } hod
      answerEvents b es s
  | _ :: es, s => answerEvents b es s

/-- A step of the loop, or the request that is read from an HTTP socket. What an answer shows
of the base no callback changes, so that it is shown as the step leaves it. -/
def HttpLoop.step (linfo : LoopInfo) : HttpStep → HttpLoop → Option HttpLoop
  | .loop label, s => do
    let t ← Loop.step linfo label s.loop
    let h ← answerEvents page compl s.loop.base (t.base.trace.drop s.loop.base.trace.length) ⟨t.base,s.hods,s.replies⟩
    some ⟨t,h.hods,h.replies⟩
  | .request li env msg, s =>
    if s.loop.control = .idle then do
      let socket ← s.loop.base.sockets.data li
      let k ← s.loop.base.socketMem.cell socket
      if k.type = .httpd then
        let h ← answerHttpdMsg page compl.fn env s.http msg
        some ⟨{ s.loop with base := h.base },h.hods,h.replies⟩
      else none
    else none

/-- What the loop itself posts has another callback. -/
def NotServer (linfo : LoopInfo) (label : Label) (s : Loop) : Prop :=
  ∀ t, Loop.step linfo label s = some t → ∀ node io r, .posted node io r ∈ t.base.trace.drop s.base.trace.length →
    ∀ p, r.complFn ≠ some (compl.fn p)

def HttpStep.Allowed (linfo : LoopInfo) : HttpStep → HttpLoop → Prop
  | .loop label, s => label.Allowed s.loop ∧ NotServer compl linfo label s.loop
  | .request li _ _, s => s.loop.control = .idle ∧ ∃ socket, (li,socket) ∈ s.loop.base.sockets.entries ∧
      s.loop.base.socketMem.cell socket = some ⟨.httpd⟩

end

/-- The requests that are read, in order. -/
def requests (labels : List HttpStep) : List ClientMsg := labels.filterMap fun label =>
  match label with
  | .loop _ => none
  | .request _ _ msg => some msg

/-- The io in memory has the data for its callback. -/
def Owner (compl : HttpdCompl) (b : Base) (io hod : Ptr) : Prop :=
  ∃ r, b.ioMem.cell io = some r ∧ r.complFn = some (compl.fn hod)

/-- The requests that were answered and those that are outstanding, each with its data, are those that were read. -/
structure Accounts (compl : HttpdCompl) (s : HttpLoop) (msgs done : List ClientMsg)
    (outstanding : List (Ptr × ClientMsg)) : Prop where
  running : Running s.loop
  answered : List.Forall₂ HttpdReply.answers s.replies done
  balance : (done ++ outstanding.map Prod.snd).Perm msgs
  apart : (outstanding.map Prod.fst).Nodup
  live : ∀ hod d, s.hods.cell hod = some d ↔ (hod,d.msgStor) ∈ outstanding
  owned : ∀ hod, (∃ d, s.hods.cell hod = some d) ↔ ∃ io, Owner compl s.loop.base io hod
  one : ∀ hod io io', Owner compl s.loop.base io hod → Owner compl s.loop.base io' hod → io = io'

variable {page : PageOf} {compl : HttpdCompl} {linfo : LoopInfo}

def Note.completes (io : Ptr) : Note → Bool
  | .event e => e.completes io
  | _ => false

theorem io_of_completes {e : Event} (completes : e.completes io = true) : e.io = some io := by
  cases e with
  | completed i err val => simpa [Event.completes,Event.io] using completes
  | _ => simp [Event.completes] at completes

@[simp] theorem completion_count (io : Ptr) (r : BanoIo) (f : BanoIo → BanoIo) :
    (noted (completion io r f)).countP (Note.completes io) = if r.complFn.isSome then 1 else 0 := by
  unfold completion
  split <;> simp [noted,Note.completes,Event.completes]

@[simp] theorem noted_nil : noted [] = [] := rfl

@[simp] theorem noted_cons (e : Event) (es : List Event) : noted (e :: es) = .event e :: noted es := rfl

/-- The calls for an io in a step are those of its story. -/
theorem story_completions {s s' : Loop} (label : Label) (trace : s'.base.trace = s.base.trace ++ es) (io : Ptr) :
    (story (label.log s s') io).countP (Note.completes io) = completions es io := by
  have events : s'.base.trace.drop s.base.trace.length = es := by rw [trace,List.drop_left]
  have silent : ∀ (xs : List (Ptr × Ptr)) (f : Ptr × Ptr → Note), (∀ e, (f e).completes io = false) →
      (xs.map f).countP (Note.completes io) = 0 := by
    intro xs f none
    apply List.countP_eq_zero.mpr
    intro n member
    obtain ⟨e,_,rfl⟩ := List.mem_map.mp member
    simp [none e]
  have within : (story (label.log s s') io).countP (Note.completes io) =
      (label.log s s').countP (Note.completes io) := by
    rw [story,List.countP_filter]
    apply List.countP_congr
    intro n _
    cases n with
    | event e =>
      simp only [Bool.and_eq_true,decide_eq_true_eq]
      exact ⟨And.left,fun completes => ⟨completes,io_of_completes completes⟩⟩
    | armed | expired => simp [Note.completes]
  rw [within,Label.log,List.countP_append,List.countP_append,silent _ _ fun _ => rfl,
    silent _ _ fun _ => rfl,events,noted,
    List.countP_map]
  simp only [Nat.zero_add,Nat.add_zero]
  rfl

/-- What a step makes of an io in memory, and how often it calls its callback. -/
inductive Fate (es : List Event) (io : Ptr) : Option BanoIo → Option BanoIo → Prop where
  | absent : completions es io = 0 → Fate es io none none
  | born (node : Ptr) (r : BanoIo) : completions es io = 0 → .posted node io r ∈ es → Fate es io none (some r)
  | kept (r r' : BanoIo) : completions es io = 0 → r'.complFn = r.complFn → Fate es io (some r) (some r')
  | released (r : BanoIo) : completions es io = (if r.complFn.isSome then 1 else 0) → Fate es io (some r) none

theorem Advances.fate {s s' : Loop} {label : Label} {io : Ptr} (advances : Advances s s' label status status')
    (trace : s'.base.trace = s.base.trace ++ es) (known : status io = none → s.base.ioMem.cell io = none) :
    Fate es io (s.base.ioMem.cell io) (s'.base.ioMem.cell io) := by
  have count := story_completions label trace io
  have events : s'.base.trace.drop s.base.trace.length = es := by rw [trace,List.drop_left]
  have told : ∀ e, .event e ∈ story (label.log s s') io → e ∈ es := by
    intro e member
    have logged := (List.mem_filter.mp member).1
    simpa [Label.log,noted,events] using logged
  have progress := advances.progress io
  revert progress count told known
  generalize status io = st, status' io = st', story (label.log s s') io = log, s.base.ioMem.cell io = r,
    s'.base.ioMem.cell io = r'
  intro known count told progress
  cases progress with
  | stays =>
    cases r with
    | none => exact .absent count.symm
    | some r => exact .kept r r count.symm rfl
  | born q node li =>
    rw [known rfl]
    exact .born node _ count.symm (told _ List.mem_cons_self)
  | written => exact .kept _ _ count.symm rfl
  | sent | answered | timedOut =>
    refine .released _ (count.symm.trans ?_)
    simp [Note.completes,Event.completes,expiring]
  | reposted => exact .kept _ _ count.symm rfl

theorem HttpdCompl.inj (same : compl.fn p = compl.fn q) : p = q :=
  Option.some.inj (((compl.spec _ p).mpr rfl).symm.trans ((compl.spec _ q).mpr same))

theorem Owner.only (owner : Owner compl b io p) (other : Owner compl b io q) : p = q := by
  obtain ⟨r,cell,fn⟩ := owner
  obtain ⟨r',cell',fn'⟩ := other
  obtain rfl := Option.some.inj (cell.symm.trans cell')
  exact compl.inj (Option.some.inj (fn.symm.trans fn'))

theorem completions_cons (e : Event) (es : List Event) (io : Ptr) :
    completions (e :: es) io = completions es io + if e.completes io then 1 else 0 := List.countP_cons ..

/-- What the events answer: the requests of the ios that complete, once each. -/
structure Cleared (compl : HttpdCompl) (b : Base) (es : List Event) (h h' : HttpBase)
    (gone : List (Ptr × ClientMsg)) : Prop where
  base : h'.base = h.base
  answered : ∃ rs, h'.replies = h.replies ++ rs ∧ List.Forall₂ HttpdReply.answers rs (gone.map Prod.snd)
  apart : (gone.map Prod.fst).Nodup
  held : ∀ hod msg, (hod,msg) ∈ gone → h.hods.cell hod = some ⟨msg⟩
  ended : ∀ hod, hod ∈ gone.map Prod.fst ↔ ∃ io, completions es io ≠ 0 ∧ Owner compl b io hod
  hods : ∀ hod, h'.hods.cell hod = if hod ∈ gone.map Prod.fst then none else h.hods.cell hod

/-- An event that answers no request. -/
theorem Cleared.skip (cleared : Cleared compl b es h h' gone)
    (silent : ∀ io hod, Owner compl b io hod → e.completes io = false) : Cleared compl b (e :: es) h h' gone := by
  refine ⟨cleared.base,cleared.answered,cleared.apart,cleared.held,fun hod => ?_,cleared.hods⟩
  rw [cleared.ended]
  constructor
  · rintro ⟨io,called,owner⟩
    exact ⟨io,by rw [completions_cons]; omega,owner⟩
  · rintro ⟨io,called,owner⟩
    rw [completions_cons,silent io hod owner] at called
    exact ⟨io,called,owner⟩

theorem Cleared.answer (cleared : Cleared compl b es mid h' gone) (owner : Owner compl b io hod)
    (once : completions es io = 0) (one : ∀ io', Owner compl b io' hod → io' = io)
    (held : h.hods.cell hod = some ⟨msg⟩) (replies : mid.replies = h.replies ++ [r]) (answers : r.answers msg)
    (base : mid.base = h.base) (freed : mid.hods.cell hod = none)
    (others : ∀ p, p ≠ hod → mid.hods.cell p = h.hods.cell p) :
    Cleared compl b (.completed io err val :: es) h h' ((hod,msg) :: gone) := by
  obtain ⟨rs,more,paired⟩ := cleared.answered
  have outside : hod ∉ gone.map Prod.fst := by
    intro member
    obtain ⟨io',called,owner'⟩ := (cleared.ended hod).mp member
    exact called (one io' owner' ▸ once)
  have calls : ∀ i, completions (.completed io err val :: es) i ≠ 0 ↔ i = io ∨ completions es i ≠ 0 := by
    intro i
    rw [completions_cons]
    by_cases same : io = i <;> simp [Event.completes,same,eq_comm]
  refine ⟨cleared.base.trans base,⟨r :: rs,by rw [more,replies]; simp,.cons answers paired⟩,
    List.nodup_cons.mpr ⟨outside,cleared.apart⟩,fun p m member => ?_,fun p => ?_,fun p => ?_⟩
  · rcases List.mem_cons.mp member with same | later
    · cases same
      exact held
    · have other : p ≠ hod := by
        rintro rfl
        exact outside (List.mem_map_of_mem (f := Prod.fst) later)
      rw [← others p other]
      exact cleared.held p m later
  · rw [List.map_cons,List.mem_cons,cleared.ended]
    constructor
    · rintro (rfl | ⟨i,called,owner'⟩)
      · exact ⟨io,(calls io).mpr (.inl rfl),owner⟩
      · exact ⟨i,(calls i).mpr (.inr called),owner'⟩
    · rintro ⟨i,called,owner'⟩
      rcases (calls i).mp called with rfl | called
      · exact .inl (owner'.only owner)
      · exact .inr ⟨i,called,owner'⟩
  · rw [cleared.hods,List.map_cons]
    by_cases same : p = hod
    · subst same
      simp [freed]
    · simp only [others p same,List.mem_cons,same,false_or]

/-- Each io that completes is in memory and completes once, so that its data is there when it is called. -/
theorem answerEvents_cleared (page : PageOf) {b : Base} (es : List Event) {h : HttpBase}
    (live : ∀ io, completions es io ≠ 0 → ∃ r, b.ioMem.cell io = some r) (once : ∀ io, completions es io ≤ 1)
    (held : ∀ io hod, completions es io ≠ 0 → Owner compl b io hod → ∃ d, h.hods.cell hod = some d)
    (one : ∀ hod io io', Owner compl b io hod → Owner compl b io' hod → io = io') :
    ∃ h' gone, answerEvents page compl b es h = some h' ∧ Cleared compl b es h h' gone := by
  induction es generalizing h with
  | nil => exact ⟨h,[],rfl,rfl,⟨[],by simp,.nil⟩,by simp,by simp,by simp [completions],by simp⟩
  | cons e es ih =>
    have more : ∀ io, completions es io ≤ completions (e :: es) io := fun io => by rw [completions_cons]; omega
    have live' : ∀ io, completions es io ≠ 0 → ∃ r, b.ioMem.cell io = some r := fun io called =>
      live io (by have := more io; omega)
    have once' : ∀ io, completions es io ≤ 1 := fun io => (more io).trans (once io)
    have silent : (∀ io, e.completes io = false) →
      answerEvents page compl b (e :: es) h = answerEvents page compl b es h →
        ∃ h' gone, answerEvents page compl b (e :: es) h = some h' ∧ Cleared compl b (e :: es) h h' gone := by
      intro none same
      obtain ⟨h',gone,answered,cleared⟩ := ih live' once' fun io hod called => held io hod (by have := more io; omega)
      exact ⟨h',gone,same.trans answered,cleared.skip fun io _ _ => none io⟩
    cases e with
    | completed io err val =>
      have called : completions (.completed io err val :: es) io ≠ 0 := by simp [completions_cons,Event.completes]
      obtain ⟨r,cell⟩ := live io called
      have last : completions es io = 0 := by
        have := once io
        simp only [completions_cons,Event.completes,decide_true,if_true] at this
        omega
      have step : answerEvents page compl b (.completed io err val :: es) h =
          match r.complFn.bind compl.hod with
          | none => answerEvents page compl b es h
          | some hod => (onHttpdIoCompl page h { r with complErr := err, complVal := val } hod).bind
              (answerEvents page compl b es) := by
        simp only [answerEvents,cell,Option.bind_eq_bind,Option.bind_some]
      cases data : r.complFn.bind compl.hod with
      | none =>
        obtain ⟨h',gone,answered,cleared⟩ := ih live' once' fun i hod called => held i hod (by have := more i; omega)
        refine ⟨h',gone,by rw [step,data]; exact answered,cleared.skip fun i hod owner => ?_⟩
        by_cases same : io = i
        · subst same
          obtain ⟨r',cell',fn⟩ := owner
          obtain rfl := Option.some.inj (cell.symm.trans cell')
          rw [fn,Option.bind_some,(compl.spec _ hod).mpr rfl] at data
          cases data
        · simp [Event.completes,same]
      | some hod =>
        obtain ⟨f,fn,known⟩ := Option.bind_eq_some_iff.mp data
        obtain rfl := (compl.spec f hod).mp known
        have owner : Owner compl b io hod := ⟨r,cell,fn⟩
        obtain ⟨⟨msg⟩,owned⟩ := held io hod called owner
        obtain ⟨mid,answered,⟨reply,replies,answers⟩,base,freed,others⟩ :=
          onHttpdIoCompl_once page { r with complErr := err, complVal := val } owned
        obtain ⟨h',gone,rest,cleared⟩ := ih (h := mid) live' once' fun i p called owner' => by
          have apart : p ≠ hod := by
            rintro rfl
            exact called (one p i io owner' owner ▸ last)
          obtain ⟨d,cell'⟩ := held i p (by have := more i; omega) owner'
          exact ⟨d,(others p apart).trans cell'⟩
        exact ⟨h',_,by rw [step,data]; simp [answered,rest],
          cleared.answer owner last (fun i owner' => one hod i io owner' owner) owned replies answers
            base freed others⟩
    | _ => exact silent (fun _ => rfl) rfl

/-- What is outstanding and what was answered of it. -/
theorem outstanding_perm {outstanding gone : List (Ptr × ClientMsg)} (apart : (outstanding.map Prod.fst).Nodup)
    (goneApart : (gone.map Prod.fst).Nodup) (within : ∀ e ∈ gone, e ∈ outstanding) :
    (gone ++ outstanding.filter fun e => e.1 ∉ gone.map Prod.fst).Perm outstanding := by
  have same : (outstanding.filter fun e => decide (e.1 ∈ gone.map Prod.fst)).Perm gone := by
    apply (List.perm_ext_iff_of_nodup ((List.Nodup.of_map _ apart).filter _) (List.Nodup.of_map _ goneApart)).mpr
    intro e
    rw [List.mem_filter,decide_eq_true_eq]
    constructor
    · rintro ⟨member,taken⟩
      obtain ⟨d,listed,key⟩ := List.mem_map.mp taken
      exact List.inj_on_of_nodup_map apart (within d listed) member key ▸ listed
    · exact fun member => ⟨within e member,List.mem_map_of_mem member⟩
  have split := List.filter_append_perm (fun e => decide (e.1 ∈ gone.map Prod.fst)) outstanding
  simp only [← decide_not] at split
  exact (same.symm.append_right _).trans split

/-- Only the ios that complete are gone, and no new io is the server's. -/
theorem loop_owners {s t : Loop} (running : Running s) (noTimer : linfo.timerFn = false) (allowed : label.Allowed s)
    (foreign : NotServer compl linfo label s) (taken : Loop.step linfo label s = some t) (io : Ptr) :
    (completions (t.base.trace.drop s.base.trace.length) io ≠ 0 → ∃ r, s.base.ioMem.cell io = some r) ∧
    completions (t.base.trace.drop s.base.trace.length) io ≤ 1 ∧
    ∀ hod, Owner compl t.base io hod ↔ Owner compl s.base io hod ∧
      completions (t.base.trace.drop s.base.trace.length) io = 0 := by
  obtain ⟨status,alive⟩ := running.alive
  obtain ⟨status',advances⟩ := step_progress alive running.untimed noTimer allowed taken
  have known : status io = none → s.base.ioMem.cell io = none := by
    intro unknown
    apply Option.eq_none_iff_forall_ne_some.mpr
    intro r cell
    obtain ⟨node,r0,posted,_⟩ := running.origins.record io r cell
    obtain ⟨st,accepted⟩ := (alive.placed.accepted io).mpr ⟨node,r0,posted⟩
    simp [unknown] at accepted
  obtain ⟨es,trace,_⟩ := (step_tells running.origins taken).told
  have events : t.base.trace.drop s.base.trace.length = es := by rw [trace,List.drop_left]
  rw [NotServer] at foreign
  have foreign := foreign t taken
  rw [events] at foreign ⊢
  have fate := advances.fate trace known
  unfold Owner
  generalize s.base.ioMem.cell io = r at *
  generalize t.base.ioMem.cell io = r' at *
  cases fate with
  | absent none => simp [none]
  | born node r none posted => simpa [none] using fun hod => foreign node io r posted hod
  | kept r r' none fn => simp [none,fn]
  | released r called => cases fn : r.complFn <;> simp [called,fn]

/-- A request is answered at once, or an io owns it. -/
theorem answerHttpdMsg_outcome (page : PageOf) (onCompl : Ptr → Callback) (env : HttpEnv)
    {s : HttpBase} (msg : ClientMsg)
    (live : ∀ e ∈ s.base.nodes.entries, ∃ n, s.base.nodeMem.cell e.2 = some n) :
    ∃ s', answerHttpdMsg page onCompl env s msg = some s' ∧ (AnsweredOnce s s' msg ∨ OwnedByIo onCompl s s' msg) := by
  have atOnce : ∀ err, ∃ s', some (completeHttpdMsg page s msg err 0) = some s' ∧
      (AnsweredOnce s s' msg ∨ OwnedByIo onCompl s s' msg) := fun err =>
    ⟨_,rfl,.inl (completeHttpdMsg_once page err 0 rfl (fun _ => rfl) (fun _ => rfl) (fun _ => rfl) rfl)⟩
  unfold answerHttpdMsg
  cases op : msg.op with
  | get => exact postHttpdMsg_outcome page onCompl env live (.inl op)
  | set => exact postHttpdMsg_outcome page onCompl env live (.inr op)
  | cam | invalid => exact atOnce _
  | rst =>
    rcases findNodeByAddr_live live msg.naddr with unknown | ⟨node,n,known,cell⟩
    · simp only [unknown,Option.bind_eq_bind,Option.bind_some]
      exact atOnce _
    · simp only [known,cell,Option.bind_eq_bind,Option.bind_some]
      have reset : ∀ pairs err, AnsweredOnce s (completeHttpdMsg page
          { s with base := s.base.setNode node { n with keyvalPairs := pairs } } msg err 0) msg := fun pairs err =>
        completeHttpdMsg_once page err 0 rfl (fun _ => rfl) (fun _ => rfl) (setNode_ioLists cell pairs) rfl
      split
      · exact ⟨_,rfl,.inl (reset _ _)⟩
      · exact ⟨_,rfl,.inl (reset _ _)⟩

/-- A step that answers the requests `gone`, each once. -/
structure AccountsFor (compl : HttpdCompl) (s s' : HttpLoop) (msgs done new : List ClientMsg)
    (outstanding gone outstanding' : List (Ptr × ClientMsg)) : Prop where
  accounts : Accounts compl s' (msgs ++ new) (done ++ gone.map Prod.snd) outstanding'
  told : ∃ rs, s'.replies = s.replies ++ rs ∧ List.Forall₂ HttpdReply.answers rs (gone.map Prod.snd)
  split : ∃ added, added.map Prod.snd = new ∧ (gone ++ outstanding').Perm (outstanding ++ added)

namespace Accounts

theorem loop (accounts : Accounts compl s msgs done outstanding) (page : PageOf) (noTimer : linfo.timerFn = false)
    (allowed : (HttpStep.loop label).Allowed compl linfo s) : ∃ s' gone outstanding',
    HttpLoop.step page compl linfo (.loop label) s = some s' ∧
    AccountsFor compl s s' msgs done [] outstanding gone outstanding' := by
  obtain ⟨allowed,foreign⟩ := allowed
  have permitted : (Service.loop label).Allowed s.loop := allowed
  obtain ⟨t,taken,running,_⟩ := accounts.running.step noTimer permitted
  have owners := fun io => loop_owners accounts.running noTimer allowed foreign taken io
  obtain ⟨h,gone,answered,cleared⟩ := answerEvents_cleared page (t.base.trace.drop s.loop.base.trace.length)
    (h := ⟨t.base,s.hods,s.replies⟩) (fun io => (owners io).1) (fun io => (owners io).2.1)
    (fun io hod _ owner => (accounts.owned hod).mpr ⟨io,owner⟩) accounts.one
  obtain ⟨rs,replies,told⟩ := cleared.answered
  have within : ∀ e ∈ gone, e ∈ outstanding := fun e member =>
    (accounts.live e.1 ⟨e.2⟩).mp (cleared.held e.1 e.2 member)
  have split := outstanding_perm accounts.apart cleared.apart within
  have taken : Loop.step linfo label s.loop = some t := taken
  refine ⟨⟨t,h.hods,h.replies⟩,gone,outstanding.filter fun e => e.1 ∉ gone.map Prod.fst,
    by simp [HttpLoop.step,taken,answered],
    ⟨running,?_,?_,?_,fun hod d => ?_,fun hod => ?_,fun hod io io' owner owner' => ?_⟩,⟨rs,replies,told⟩,
    ⟨[],rfl,by simpa using split⟩⟩
  · exact replies ▸ List.rel_append accounts.answered told
  · rw [List.append_nil,List.append_assoc,← List.map_append]
    exact ((split.map Prod.snd).append_left done).trans accounts.balance
  · exact accounts.apart.sublist (List.filter_sublist.map Prod.fst)
  · rw [cleared.hods,List.mem_filter,← accounts.live]
    by_cases ended : hod ∈ gone.map Prod.fst <;> simp [ended]
  · rw [cleared.hods]
    by_cases ended : hod ∈ gone.map Prod.fst
    · obtain ⟨io,called,owner⟩ := (cleared.ended hod).mp ended
      simp only [ended,if_true,reduceCtorEq,exists_false,false_iff,not_exists]
      intro io' owner'
      obtain ⟨before,silent⟩ := ((owners io').2.2 hod).mp owner'
      exact called (accounts.one hod io io' owner before ▸ silent)
    · simp only [ended,if_false]
      rw [accounts.owned]
      refine exists_congr fun io => ⟨fun owner => ((owners io).2.2 hod).mpr ⟨owner,?_⟩,
        fun owner => (((owners io).2.2 hod).mp owner).1⟩
      by_contra called
      exact ended ((cleared.ended hod).mpr ⟨io,called,owner⟩)
  · exact accounts.one hod io io' (((owners io).2.2 hod).mp owner).1 (((owners io').2.2 hod).mp owner').1

theorem request (accounts : Accounts compl s msgs done outstanding) (page : PageOf) (noTimer : linfo.timerFn = false)
    (allowed : (HttpStep.request li env msg).Allowed compl linfo s) : ∃ s' gone outstanding',
    HttpLoop.step page compl linfo (.request li env msg) s = some s' ∧
      AccountsFor compl s s' msgs done [msg] outstanding gone outstanding' := by
  obtain ⟨idle,socket,listed,httpd⟩ := allowed
  obtain ⟨status,alive⟩ := accounts.running.alive
  obtain ⟨h,answered,outcome⟩ := answerHttpdMsg_outcome page compl.fn env (s := s.http) msg alive.node
  obtain ⟨err,handled,_⟩ := answerHttpdMsg_handled answered
  have found := LinkedList.data_eq_some.mpr listed
  have taken : HttpLoop.step page compl linfo (.request li env msg) s =
      some ⟨{ s.loop with base := h.base },h.hods,h.replies⟩ := by
    simp [HttpLoop.step,idle,found,httpd,answered]
  have handled : Bano.handleHttpdMsg { env with hod := compl.fn s.hods.next } s.loop.base msg.toHttpdMsg =
    some (err,h.base) := handled
  have permitted : (Service.http li { env with hod := compl.fn s.hods.next } msg.toHttpdMsg).Allowed s.loop :=
    ⟨idle,socket,listed,httpd⟩
  obtain ⟨t,served,running,_⟩ := accounts.running.step noTimer permitted
  obtain rfl : { s.loop with base := h.base } = t := by
    simpa [Service.step,idle,readHttpd,found,httpd,handled] using served
  rcases outcome with once | owned
  · obtain ⟨r,replies,answers⟩ := once.replied
    have same : ∀ io hod, Owner compl h.base io hod ↔ Owner compl s.loop.base io hod := by
      intro io hod
      have cell : h.base.ioMem.cell io = s.loop.base.ioMem.cell io := once.ios io
      rw [Owner,Owner,cell]
    refine ⟨_,[(s.hods.next,msg)],outstanding,taken,⟨running,?_,?_,accounts.apart,fun hod d => ?_,fun hod => ?_,
      fun hod io io' owner owner' => ?_⟩,⟨[r],replies,.cons answers .nil⟩,
        ⟨[(s.hods.next,msg)],rfl,List.perm_append_comm⟩⟩
    · exact replies ▸ List.rel_append accounts.answered (.cons answers .nil)
    · rw [List.append_assoc]
      apply (List.perm_append_comm.append_left done).trans
      rw [← List.append_assoc]
      exact accounts.balance.append_right [msg]
    · rw [← accounts.live]
      exact iff_of_eq (congrArg (· = some d) (once.hods hod))
    · apply (iff_of_eq (congrArg (fun cell => ∃ d, cell = some d) (once.hods hod))).trans
      exact (accounts.owned hod).trans (exists_congr fun io => (same io hod).symm)
    · exact accounts.one hod io io' ((same io hod).mp owner) ((same io' hod).mp owner')
  · obtain ⟨_,_,_,r,_,_,_,_,_,cell,_,fn⟩ := owned.posted
    have born : Owner compl h.base s.loop.base.ioMem.next s.hods.next := ⟨r,cell,fn⟩
    have noData : s.hods.cell s.hods.next = none := Heap.cell_next _
    have noOwner : ∀ io, ¬ Owner compl s.loop.base io s.hods.next := by
      intro io owner
      obtain ⟨d,data⟩ := (accounts.owned s.hods.next).mpr ⟨io,owner⟩
      rw [noData] at data
      cases data
    have others : ∀ io hod, Owner compl h.base io hod ↔ Owner compl s.loop.base io hod ∨
        io = s.loop.base.ioMem.next ∧ hod = s.hods.next := by
      intro io hod
      by_cases new : io = s.loop.base.ioMem.next
      · subst new
        constructor
        · exact fun owner => .inr ⟨rfl,owner.only born⟩
        · rintro (⟨r',cell',_⟩ | ⟨_,rfl⟩)
          · rw [Heap.cell_next] at cell'
            cases cell'
          · exact born
      · have cell : h.base.ioMem.cell io = s.loop.base.ioMem.cell io := owned.ios io new
        rw [Owner,Owner,cell]
        simp [new]
    refine ⟨_,[],outstanding ++ [(s.hods.next,msg)],taken,⟨running,?_,?_,?_,fun hod d => ?_,fun hod => ?_,
      fun hod io io' owner owner' => ?_⟩,⟨[],owned.silent.trans (List.append_nil _).symm,.nil⟩,⟨_,rfl,.refl _⟩⟩
    · simpa using owned.silent ▸ accounts.answered
    · rw [List.map_nil,List.append_nil,List.map_append,← List.append_assoc]
      exact accounts.balance.append_right [msg]
    · rw [List.map_append,List.nodup_append]
      refine ⟨accounts.apart,by simp,?_⟩
      rintro p early _ last rfl
      obtain ⟨e,member,rfl⟩ := List.mem_map.mp early
      have data := (accounts.live e.1 ⟨e.2⟩).mpr member
      rw [List.mem_singleton.mp last,noData] at data
      cases data
    · by_cases new : hod = s.hods.next
      · subst new
        have absent : (s.hods.next,d.msgStor) ∉ outstanding := by
          intro member
          rw [← accounts.live,noData] at member
          cases member
        have copy : h.hods.cell s.hods.next = some ⟨msg⟩ := owned.copy
        obtain ⟨m⟩ := d
        simp only at absent
        simp [copy,absent,eq_comm]
      · have cell : h.hods.cell hod = s.hods.cell hod := owned.hods hod new
        simp [cell,accounts.live,new]
    · by_cases new : hod = s.hods.next
      · subst new
        exact ⟨fun _ => ⟨_,born⟩,fun _ => ⟨_,owned.copy⟩⟩
      · have cell : h.hods.cell hod = s.hods.cell hod := owned.hods hod new
        simp only [cell,accounts.owned,others,new,and_false,or_false]
    · rcases (others io hod).mp owner with old | ⟨rfl,rfl⟩
      · rcases (others io' hod).mp owner' with old' | ⟨rfl,rfl⟩
        · exact accounts.one hod io io' old old'
        · exact (noOwner io old).elim
      · rcases (others io' _).mp owner' with old' | ⟨rfl,_⟩
        · exact (noOwner io' old').elim
        · rfl

/-- An allowed step of the service has a result, and accounts for its request. -/
theorem step (accounts : Accounts compl s msgs done outstanding) (page : PageOf) (noTimer : linfo.timerFn = false)
    (allowed : label.Allowed compl linfo s) : ∃ s' gone outstanding',
      HttpLoop.step page compl linfo label s = some s' ∧
      AccountsFor compl s s' msgs done (requests [label]) outstanding gone outstanding' := by
  cases label with
  | loop label => exact accounts.loop page noTimer allowed
  | request li env msg => exact accounts.request page noTimer allowed

end Accounts

theorem Stocked.accounts (stocked : Stocked b) (compl : HttpdCompl) :
    Accounts compl ⟨⟨b,none,.idle⟩,.empty,[]⟩ [] [] [] := by
  have noOwner : ∀ io hod, ¬ Owner compl b io hod := by
    rintro io hod ⟨r,cell,_⟩
    obtain ⟨node,r0,posted,_⟩ := stocked.running.origins.record io r cell
    rw [stocked.toIdle.trace] at posted
    cases posted
  exact ⟨stocked.running,.nil,.nil,.nil,by simp,
    fun hod => by simp [noOwner],fun hod io io' owner => (noOwner io hod owner).elim⟩

/-- Whatever the nodes, the radio and the clients do, each request that was read was
answered once or is outstanding: then one io in memory owns the copy of it, which is
freed with its answer. No step of the service runs into a fault. -/
theorem clients_accounted (stocked : Stocked b) (noTimer : linfo.timerFn = false)
    (reach : Reach (HttpLoop.step page compl linfo) (HttpStep.Allowed compl linfo)
      ⟨⟨b,none,.idle⟩,.empty,[]⟩ labels s) :
    ∃ (done : List ClientMsg) (outstanding : List (Ptr × ClientMsg)), List.Forall₂ HttpdReply.answers s.replies done ∧
      (done ++ outstanding.map Prod.snd).Perm (requests labels) ∧ (outstanding.map Prod.fst).Nodup ∧
      (∀ hod d, s.hods.cell hod = some d ↔ (hod,d.msgStor) ∈ outstanding) ∧
      (∀ hod, (∃ d, s.hods.cell hod = some d) ↔ ∃! io, Owner compl s.loop.base io hod) ∧
      ∀ label, label.Allowed compl linfo s → ∃ s', HttpLoop.step page compl linfo label s = some s' := by
  have accounted : ∃ done outstanding, Accounts compl s (requests labels) done outstanding := by
    induction reach with
    | start => exact ⟨[],[],stocked.accounts compl⟩
    | next _ permitted taken ih =>
      obtain ⟨done,outstanding,accounts⟩ := ih
      obtain ⟨s',gone,outstanding',taken',accounted⟩ := accounts.step page noTimer permitted
      obtain rfl := Option.some.inj (taken.symm.trans taken')
      exact ⟨_,outstanding',by rw [requests,List.filterMap_append]; exact accounted.accounts⟩
  obtain ⟨done,outstanding,accounts⟩ := accounted
  refine ⟨done,outstanding,accounts.answered,accounts.balance,accounts.apart,accounts.live,fun hod => ?_,
    fun label permitted => ?_⟩
  · rw [accounts.owned]
    exact ⟨fun ⟨io,owner⟩ => ⟨io,owner,fun io' owner' => accounts.one hod io' io owner' owner⟩,
      fun ⟨io,owner,_⟩ => ⟨io,owner⟩⟩
  · obtain ⟨s',_,_,taken,_⟩ := accounts.step page noTimer permitted
    exact ⟨s',taken⟩

/-- The HTTP server as the third socket of `twoSockets`. -/
def servedBase : Base :=
  { twoSockets with
    sockets := (twoSockets.sockets.addTail true twoSockets.socketMem.next).2
    socketMem := twoSockets.socketMem.alloc ⟨.httpd⟩ }

/-- Every callback is the server's. -/
def servedCompl : HttpdCompl := ⟨id,some,fun f p => by simp⟩

def servedGet : HttpStep := .request 2 ⟨0,⟨0,0⟩,junkIo,0,none,true,true,true,true,true⟩ servedMsg

theorem servedBase_stocked : Stocked servedBase := EventLoop.twoSockets_stocked.addSocket rfl .httpd

/-- A GET for the node of `twoSockets` is outstanding once it is read. -/
theorem clients_accounted_get : ∃ s, HttpLoop.step (fun _ _ _ => none) servedCompl bareLoop servedGet
    ⟨⟨servedBase,none,.idle⟩,.empty,[]⟩ = some s ∧ s.replies = [] ∧
    ∃ hod, s.hods.cell hod = some ⟨servedMsg⟩ ∧ ∃! io, Owner servedCompl s.loop.base io hod := by
  obtain ⟨s,read,silent⟩ : ∃ s, HttpLoop.step (fun _ _ _ => none) servedCompl bareLoop servedGet
      ⟨⟨servedBase,none,.idle⟩,.empty,[]⟩ = some s ∧ s.replies = [] := Option.map_eq_some_iff.mp rfl
  have allowed : servedGet.Allowed servedCompl bareLoop ⟨⟨servedBase,none,.idle⟩,.empty,[]⟩ :=
    ⟨rfl,2,show (2,2) ∈ servedBase.sockets.entries by decide,rfl⟩
  obtain ⟨done,outstanding,answered,balance,_,live,owned,_⟩ :=
    clients_accounted servedBase_stocked rfl (.next .start allowed read)
  rw [silent] at answered
  obtain rfl := List.forall₂_nil_left_iff.mp answered
  have there : servedMsg ∈ outstanding.map Prod.snd := balance.mem_iff.mpr List.mem_cons_self
  obtain ⟨⟨hod,msg⟩,member,rfl⟩ := List.mem_map.mp there
  have data := (live hod ⟨servedMsg⟩).mpr member
  exact ⟨s,read,silent,hod,data,(owned hod).mp ⟨_,data⟩⟩

end Bano
