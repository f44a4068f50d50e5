import Bano.Lib.Handle
import Bano.Release
import Bano.Sections

/-! The handles of a base: one a kind of device, with a bit that tells whether
it is open. What they hold is what bano_close closes. -/
namespace Bano

open Lib

/-- The lists hold all the nodes and sockets there are. -/
structure Stocked (b : Base) : Prop extends Idle b where
  nodeListed : ∀ p n, b.nodeMem.cell p = some n → p ∈ b.nodes.entries.map Prod.snd
  socketListed : ∀ p s, b.socketMem.cell p = some s → p ∈ b.sockets.entries.map Prod.snd

theorem banoOpen_stocked (flags : U32) : Stocked (banoOpen flags) :=
  ⟨banoOpen_idle flags,fun _ _ cell => (nomatch cell),fun _ _ cell => (nomatch cell)⟩

/-- A list of all live cells stays one when a new cell is appended. -/
theorem listed_append {mem : Heap β} {es : List (Ptr × Ptr)}
    (listed : ∀ p x, mem.cell p = some x → p ∈ es.map Prod.snd) (x : β)
    (it : Ptr) : ∀ p y, (mem.alloc x).cell p = some y → p ∈ (es ++ [(it,mem.next)]).map Prod.snd := by
  intro p y cell
  rw [List.map_append,List.mem_append]
  by_cases here : p = mem.next
  · exact .inr (by simp [here])
  · rw [Heap.alloc_cell_other here] at cell
    exact .inl (listed p y cell)

theorem Stocked.addSocket {b : Base} (stocked : Stocked b)
    (entries : sockets.entries = b.sockets.entries ++ [(it,b.socketMem.next)])
    (type : SocketType) : Stocked { b with sockets := sockets, socketMem := b.socketMem.alloc ⟨type⟩ } := by
  refine ⟨stocked.toIdle.addSocket entries type,stocked.nodeListed,?_⟩
  rw [entries]
  exact listed_append stocked.socketListed ⟨type⟩ _

theorem Sets.stocked (sets : Sets strukt err b b') (stocked : Stocked b) : Stocked b' := by
  cases sets with
  | settings _ same =>
    rw [same]
    exact ⟨⟨stocked.node,stocked.nodesApart,stocked.socket,stocked.socketsApart,stocked.attached,
      stocked.unused,stocked.timers,
      stocked.ioMem,stocked.trace⟩,stocked.nodeListed,stocked.socketListed⟩
  | socket type sockets _ entries same =>
    subst same
    exact stocked.addSocket entries type
  | node n nodes _ _ attached posted pending entries same =>
    subst same
    refine ⟨stocked.addNode attached posted pending entries,?_,stocked.socketListed⟩
    rw [entries]
    exact listed_append stocked.nodeListed n _
  | dropped n _ same =>
    subst same
    have cells := Heap.alloc_erase_cell b.nodeMem n
    refine ⟨⟨?_,stocked.nodesApart,stocked.socket,stocked.socketsApart,?_,?_,stocked.timers,stocked.ioMem,
      stocked.trace⟩,?_,
      stocked.socketListed⟩
    · intro e listed
      obtain ⟨m,cell⟩ := stocked.node e listed
      exact ⟨m,(cells e.2).trans cell⟩
    · intro e listed m cell
      exact stocked.attached e listed m ((cells e.2).symm.trans cell)
    · intro p m cell
      exact stocked.unused p m ((cells p).symm.trans cell)
    · intro p m cell
      exact stocked.nodeListed p m ((cells p).symm.trans cell)

/-- Sockets are released one by one once no node is listed. -/
theorem freeSocketItems_some (noNode : b.nodes.entries = []) (live : ∀ e ∈ es, ∃ s, b.socketMem.cell e.2 = some s)
    (apart : (es.map Prod.snd).Nodup) : ∃ b', freeSocketItems es b = some b' ∧ b'.nodeMem = b.nodeMem ∧
      ∀ p, b'.socketMem.cell p = if p ∈ es.map Prod.snd then none else b.socketMem.cell p := by
  induction es generalizing b with
  | nil => exact ⟨b,rfl,rfl,by simp⟩
  | cons e es ih =>
    obtain ⟨outside,apart⟩ := List.nodup_cons.mp apart
    obtain ⟨s,cell⟩ := live e List.mem_cons_self
    have freed : banoSocketFree b e.2 = some { b with socketMem := b.socketMem.erase e.2 } := by
      simp [banoSocketFree,noNode,freeNodeItems,Heap.free_live cell]
    have later : ∀ d ∈ es, ∃ s, (b.socketMem.erase e.2).cell d.2 = some s := by
      intro d member
      obtain ⟨s',cell'⟩ := live d (List.mem_cons_of_mem _ member)
      have other : d.2 ≠ e.2 := fun same => outside (same ▸ List.mem_map_of_mem member)
      exact ⟨s',by rw [Heap.erase_cell_other other,cell']⟩
    obtain ⟨b',rest,nodeMem,cells⟩ := ih (b := { b with socketMem := b.socketMem.erase e.2 }) noNode later apart
    refine ⟨b',by simp [freeSocketItems,freed,rest],nodeMem,fun p => ?_⟩
    rw [cells p]
    by_cases here : p = e.2
    · simp [here]
    · simp only [List.map_cons,List.mem_cons,here,false_or,Heap.erase_cell_other here]

theorem Stocked.close (stocked : Stocked b) : ∃ b', banoClose b = some b' ∧ b'.nodeMem.Vacant ∧
    b'.socketMem.Vacant := by
  have stopped : banoTimerFini b.timers = some ⟨⟨none,none,b.timers.list.items⟩,b.timers.timers⟩ := by
    rw [stocked.timers]
    rfl
  have idle : ∀ e ∈ b.nodes.entries, ∀ n, b.nodeMem.cell e.2 = some n → n.postedIos.entries = [] ∧
      n.pendingIos.entries = [] :=
    fun e _ n cell => stocked.unused e.2 n cell
  obtain ⟨mid,nodes⟩ :=
    freeNodeItems_some (b := { b with timers := ⟨⟨none,none,b.timers.list.items⟩,b.timers.timers⟩ })
    stocked.node stocked.nodesApart
    (by
      intro e member n cell i listed
      obtain ⟨posted,pending⟩ := idle e member n cell
      simp [posted,pending] at listed)
    (by
      intro e member n cell
      obtain ⟨posted,pending⟩ := idle e member n cell
      simp [listedIos,posted,pending])
  obtain ⟨ios,released,_⟩ := freeNodeItems_released nodes
  have socketMem : mid.socketMem = b.socketMem := by rw [released.same]
  have sockets : mid.sockets = b.sockets := by rw [released.same]
  have live : ∀ e ∈ mid.sockets.entries, ∃ s, mid.socketMem.cell e.2 = some s := by
    rw [sockets,socketMem]
    exact stocked.socket
  have apart : (mid.sockets.entries.map Prod.snd).Nodup := by
    rw [sockets]
    exact stocked.socketsApart
  obtain ⟨b',freed,nodeMem,cells⟩ := freeSocketItems_some (b := { mid with nodes := .empty }) rfl live apart
  refine ⟨{ b' with sockets := .empty },?_,?_,?_⟩
  · simp [banoClose,stopped,nodes,freed]
  · intro p
    apply (congrArg (fun mem => mem.cell p) nodeMem).trans
    apply (released.node p).trans
    split
    · rfl
    · next outside =>
      rw [Option.eq_none_iff_forall_ne_some]
      exact fun n cell => outside (stocked.nodeListed p n cell)
  · intro p
    apply (cells p).trans
    split
    · rfl
    · next outside =>
      rw [Option.eq_none_iff_forall_ne_some]
      exact fun s cell => outside (sockets ▸ stocked.socketListed p s (socketMem ▸ cell))

namespace BanoBase

/-- The bmp, descriptor, frame buffer and session that the bits say are open. -/
def bmp (s : BanoBase) : Option Nat := if s.isCam then some s.cam.bmp else none

def fd (s : BanoBase) : Option Nat := if s.isCam && !s.cam.isDummy then s.cam.fd else none

def fb (s : BanoBase) : Option Nat := if s.isCam && !s.cam.isDummy then s.cam.fb else none

def session (s : BanoBase) : Option Nat := if s.isSms then some s.sms else none

end BanoBase

/-- The handles hold all that is open. -/
structure InHand (s : BanoBase) : Prop where
  stocked : Stocked s.base
  bmp : s.devices.bmps.Only s.bmp
  fd : s.devices.fds.Only s.fd
  fb : s.devices.fbs.Only s.fb
  captures : s.isCam → s.cam.isDummy = false → s.cam.fd.isSome
  session : s.devices.sessions.Only s.session
  server : s.isHttpd → ∃ p, s.httpd.server = some p ∧ ∃ u, s.devices.servers.cell p = some u
  pipe : s.isHttpd → ∃ u, s.devices.pipes.cell s.httpd.pipe = some u

/-- No socket, node, camera or session is left open. -/
structure AllClosed (s : BanoBase) : Prop where
  node : s.base.nodeMem.Vacant
  socket : s.base.socketMem.Vacant
  bmp : s.devices.bmps.Vacant
  fd : s.devices.fds.Vacant
  fb : s.devices.fbs.Vacant
  session : s.devices.sessions.Vacant

theorem initial_held (junk : BanoBase) (info : BanoBaseInfo) : InHand (BanoBase.initial junk info) := by
  have none : ∀ {α : Type}, (Heap.empty : Heap α).Only none := Heap.only_none.mpr Heap.vacant_empty
  refine ⟨banoOpen_stocked info.flags,none,none,none,?_,none,?_,?_⟩ <;> simp [BanoBase.initial]

theorem stopMmap_closes {cam : BanoCamHandle} (fb : d.fbs.Only cam.fb) :
    ∃ fbs, stopMmap cam d = some { d with fbs := fbs } ∧ fbs.Vacant := by
  unfold stopMmap
  cases streaming : cam.fb with
  | none =>
    rw [streaming] at fb
    exact ⟨d.fbs,rfl,Heap.only_none.mp fb⟩
  | some p =>
    rw [streaming] at fb
    obtain ⟨fbs,freed,vacant⟩ := fb.free
    exact ⟨fbs,by simp [freed],vacant⟩

theorem banoCamClose_closes {cam : BanoCamHandle} (bmp : d.bmps.Only (some cam.bmp))
    (fd : d.fds.Only (if cam.isDummy then none else cam.fd)) (fb : d.fbs.Only (if cam.isDummy then none else cam.fb))
    (captures : cam.isDummy = false → cam.fd.isSome) : ∃ bmps fds fbs,
      banoCamClose cam d = some { d with bmps := bmps, fds := fds, fbs := fbs } ∧ bmps.Vacant ∧
      fds.Vacant ∧ fbs.Vacant := by
  obtain ⟨bmps,freed,noBmp⟩ := bmp.free
  cases dummy : cam.isDummy with
  | true =>
    rw [dummy] at fd fb
    exact ⟨bmps,d.fds,d.fbs,by simp [banoCamClose,freed,dummy],noBmp,Heap.only_none.mp fd,Heap.only_none.mp fb⟩
  | false =>
    obtain ⟨p,opened⟩ := Option.isSome_iff_exists.mp (captures dummy)
    rw [dummy] at fd fb
    obtain ⟨fbs,stopped,noFb⟩ := stopMmap_closes (d := { d with bmps := bmps }) fb
    have fd' : d.fds.Only (some p) := opened ▸ fd
    obtain ⟨fds,closed,noFd⟩ := fd'.free
    exact ⟨bmps,fds,fbs,by simp [banoCamClose,freed,dummy,stopped,opened,closed],noBmp,noFd,noFb⟩

namespace BanoBase

/-- The lines of finish that stop the server, the camera and the session. -/
def stopHttpd (s : BanoBase) (d : Devices) : Option Devices := if s.isHttpd then banoHttpdFini s.httpd d else some d

def stopCam (s : BanoBase) (d : Devices) : Option Devices := if s.isCam then banoCamClose s.cam d else some d

def stopSms (s : BanoBase) (d : Devices) : Option Devices := if s.isSms then banoSmsClose s.sms d else some d

theorem finish_eq (s : BanoBase) : s.finish =
    (s.stopHttpd s.devices).bind fun d => (s.stopCam d).bind fun d => (s.stopSms d).bind fun d =>
      (Bano.banoClose s.base).bind fun base => some { s with base := base, devices := d } := by
  unfold finish stopHttpd stopCam stopSms
  cases s.isHttpd <;> cases s.isCam <;> cases s.isSms <;> rfl

end BanoBase

namespace InHand

theorem stopHttpd {s : BanoBase} (held : InHand s) : ∃ servers pipes,
    s.stopHttpd s.devices = some { s.devices with servers := servers, pipes := pipes } := by
  unfold BanoBase.stopHttpd
  split
  · next httpd =>
    obtain ⟨p,server,u,live⟩ := held.server httpd
    obtain ⟨v,live'⟩ := held.pipe httpd
    exact ⟨s.devices.servers.erase p,s.devices.pipes.erase s.httpd.pipe,by
      simp [banoHttpdFini,server,Heap.free_live live,Heap.free_live live']⟩
  · exact ⟨_,_,rfl⟩

/-- The server is stopped before. -/
theorem stopCam {s : BanoBase} (held : InHand s) (servers pipes : Heap Unit) : ∃ bmps fds fbs,
    s.stopCam { s.devices with servers := servers, pipes := pipes } =
        some { s.devices with servers := servers, pipes := pipes, bmps := bmps, fds := fds, fbs := fbs } ∧
      bmps.Vacant ∧ fds.Vacant ∧ fbs.Vacant := by
  have bmp := held.bmp
  have fd := held.fd
  have fb := held.fb
  unfold BanoBase.stopCam
  split
  · next cam =>
    simp only [BanoBase.bmp,BanoBase.fd,BanoBase.fb,cam,if_true,Bool.true_and,Bool.not_eq_true'] at bmp fd fb
    refine banoCamClose_closes (d := { s.devices with servers := servers, pipes := pipes }) bmp ?_ ?_
      (held.captures cam)
    · cases dummy : s.cam.isDummy <;> simpa [dummy] using fd
    · cases dummy : s.cam.isDummy <;> simpa [dummy] using fb
  · next noCam =>
    simp only [BanoBase.bmp,BanoBase.fd,BanoBase.fb,noCam] at bmp fd fb
    exact ⟨_,_,_,rfl,Heap.only_none.mp bmp,Heap.only_none.mp fd,Heap.only_none.mp fb⟩

theorem stopSms {s : BanoBase} (held : InHand s) {d : Devices} (same : d.sessions = s.devices.sessions) : ∃ sessions,
    s.stopSms d = some { d with sessions := sessions } ∧ sessions.Vacant := by
  have session := held.session
  unfold BanoBase.stopSms
  rw [← same] at session
  split
  · next sms =>
    simp only [BanoBase.session,sms,if_true] at session
    obtain ⟨sessions,freed,noSession⟩ := session.free
    exact ⟨sessions,by simp [banoSmsClose,freed],noSession⟩
  · next noSms =>
    simp only [BanoBase.session,noSms] at session
    exact ⟨d.sessions,rfl,Heap.only_none.mp session⟩

theorem finish {s : BanoBase} (held : InHand s) : ∃ s', s.finish = some s' ∧ AllClosed s' := by
  obtain ⟨servers,pipes,noHttpd⟩ := held.stopHttpd
  obtain ⟨bmps,fds,fbs,noCam,noBmp,noFd,noFb⟩ := held.stopCam servers pipes
  obtain ⟨sessions,noSms,noSession⟩ := held.stopSms (d :=
    { s.devices with servers := servers, pipes := pipes, bmps := bmps, fds := fds, fbs := fbs }) rfl
  obtain ⟨b,closed,noNode,noSocket⟩ := held.stocked.close
  refine ⟨{ s with base := b, devices := ⟨bmps,fds,fbs,sessions,servers,pipes⟩ },?_,noNode,noSocket,noBmp,
    noFd,noFb,noSession⟩
  rw [BanoBase.finish_eq,noHttpd,Option.bind_some,noCam,Option.bind_some,noSms,Option.bind_some,
    closed,Option.bind_some]

end InHand

/-- How a camera of a known format is opened. -/
inductive CamOpening (s : BanoBase) : Int × BanoBase → Prop where
  | failed (cam : BanoCamHandle) (fds : Heap Unit) : cam.bmp = s.devices.bmps.next →
      (∀ p, fds.cell p = s.devices.fds.cell p) → CamOpening s (-1,{ s with
        cam := cam
        devices := { s.devices with bmps := (s.devices.bmps.alloc ()).erase s.devices.bmps.next, fds := fds } })
  | dummy (cam : BanoCamHandle) : cam.bmp = s.devices.bmps.next → cam.isDummy = true → CamOpening s (0,{ s with
      isCam := true
      cam := cam
      devices := { s.devices with bmps := s.devices.bmps.alloc () } })
  | streams (cam : BanoCamHandle) : cam.bmp = s.devices.bmps.next → cam.isDummy = false →
      cam.fd = some s.devices.fds.next →
      cam.fb = some s.devices.fbs.next → CamOpening s (0,{ s with
        isCam := true
        cam := cam
        devices := { s.devices with
          bmps := s.devices.bmps.alloc (), fds := s.devices.fds.alloc (), fbs := s.devices.fbs.alloc () } })

theorem openCam_invalid {info : BanoCamInfo} (s : BanoBase) (answer : CamAnswer) (invalid : info.fmt = .invalid) :
    s.openCam answer info = (-1,s) := by simp [BanoBase.openCam,banoCamOpen,invalid]

theorem openCam_opening {info : BanoCamInfo} (s : BanoBase) (answer : CamAnswer) (valid : info.fmt ≠ .invalid) :
    CamOpening s (s.openCam answer info) := by
  unfold BanoBase.openCam banoCamOpen
  rw [if_neg valid]
  by_cases dummy : info.flags &&& camFlagDummy ≠ 0
  · simp only [dummy,ne_eq,not_false_eq_true,if_true,not_true]
    exact .dummy _ rfl rfl
  · simp only [dummy,if_false]
    cases answer with
    | noDevice => exact .failed _ s.devices.fds rfl fun _ => rfl
    | noCapture => exact .failed _ _ rfl (Heap.alloc_erase_cell s.devices.fds ())
    | noFormat => exact .failed _ _ rfl (Heap.alloc_erase_cell s.devices.fds ())
    | noStream => exact .failed _ _ rfl (Heap.alloc_erase_cell s.devices.fds ())
    | streams => exact .streams _ rfl rfl rfl rfl

/-- bano_sms_open fails before it takes anything. -/
def SmsSpared (env : OpenEnv) (sslOpens : Bool) : Prop :=
  sslOpens = false ∨ env.smsKey = none ∨ env.smsKey ≠ some [] ∧ env.aesInits = false

/-- The key is not empty, and an address has a port and fits its array. -/
def SmsFits (env : OpenEnv) (info : BanoSmsInfo) : Prop :=
  env.smsKey ≠ some [] ∧ ∀ addr, info.addr = some addr → info.port.isSome ∧ addr.length < smsAddrSize

theorem openSms_spared (s : BanoBase) (info : BanoSmsInfo) (spared : SmsSpared env sslOpens) :
    s.openSms env sslOpens info = some (-1,s) := by
  unfold BanoBase.openSms banoSmsOpen
  rcases spared with noSsl | noKey | ⟨key,noAes⟩
  · simp [noSsl]
  · cases sslOpens <;> simp [noKey]
  · cases given : env.smsKey with
    | none => cases sslOpens <;> simp
    | some k =>
      cases k with
      | nil => exact absurd given key
      | cons c cs => cases sslOpens <;> simp [noAes]

theorem openSms_open (s : BanoBase) (unspared : ¬SmsSpared env sslOpens) (fits : SmsFits env info) :
    s.openSms env sslOpens info = some (0,{ s with
      isSms := true
      sms := s.devices.sessions.next
      devices := { s.devices with sessions := s.devices.sessions.alloc () } }) := by
  obtain ⟨ssl,given,aes⟩ : sslOpens = true ∧ env.smsKey ≠ none ∧ env.aesInits = true := by
    simp only [SmsSpared,not_or,not_and,Bool.not_eq_false] at unspared
    exact ⟨unspared.1,unspared.2.1,unspared.2.2 fits.1⟩
  unfold BanoBase.openSms banoSmsOpen
  cases key : env.smsKey with
  | none => exact absurd key given
  | some k =>
    cases k with
    | nil => exact absurd key fits.1
    | cons c cs =>
      cases addr : info.addr with
      | none => simp [ssl,aes]
      | some a =>
        obtain ⟨port,bound⟩ := fits.2 a addr
        simp [ssl,aes,Option.isSome_iff_ne_none.mp port,Nat.not_le.mpr bound]

theorem openSms_unfit (s : BanoBase) (unspared : ¬SmsSpared env sslOpens) (unfit : ¬SmsFits env info) :
    s.openSms env sslOpens info = none := by
  simp only [SmsSpared,not_or,not_and,Bool.not_eq_false] at unspared
  obtain ⟨ssl,given,aes⟩ := unspared
  unfold BanoBase.openSms banoSmsOpen
  cases key : env.smsKey with
  | none => exact absurd key given
  | some k =>
    cases k with
    | nil => simp [ssl]
    | cons c cs =>
      have filled : env.smsKey ≠ some [] := by simp [key]
      cases addr : info.addr with
      | none => exact absurd ⟨filled,fun a same => nomatch addr.symm.trans same⟩ unfit
      | some a =>
        have long : info.port = none ∨ smsAddrSize ≤ a.length := by
          by_contra fine
          rw [not_or] at fine
          refine unfit ⟨filled,fun a' same => ?_⟩
          obtain rfl := Option.some.inj (addr.symm.trans same)
          exact ⟨Option.isSome_iff_ne_none.mpr fine.1,Nat.not_le.mp fine.2⟩
        simp [ssl,aes filled,long]

end Bano
