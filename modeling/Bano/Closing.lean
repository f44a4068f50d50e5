import Bano.Handles

/-! When what a configuration opens is closed: a section may write over a handle whose bit is set. -/
namespace Bano

open Lib

def DeviceInfo.kind : DeviceInfo → SectionKind
  | .httpd _ => .httpServer
  | .cam _ => .cam
  | .sms _ => .sms

/-- A section whose pairs are taken asks for such a device. -/
def Asks (kind : SectionKind) (conf : List (ConfSection × Answers)) : Prop :=
  ∃ x ∈ conf, ∃ info, x.1.device x.2 = some info ∧ info.kind = kind

/-- What a section has to be that is applied after those of `front`: once a camera is open
no further one gets as far as its bmp, no second session is opened, a further server does
not fail past its pipe, and bano_sms_open reads what it can. -/
def Careful (env : OpenEnv) (front : List (ConfSection × Answers)) (x : ConfSection × Answers) : Prop :=
  match x.1.device x.2 with
  | none => True
  | some (.httpd _) => Asks .httpServer front → x.2.httpd = .noPipe ∨ x.2.httpd = .starts
  | some (.cam info) => Asks .cam front → info.fmt = .invalid
  | some (.sms info) => SmsSpared env x.2.sslOpens ∨ SmsFits env info ∧ ¬Asks .sms front

/-- The bits tell which devices the sections asked for. -/
structure Bits (front : List (ConfSection × Answers)) (s : BanoBase) : Prop where
  httpd : s.isHttpd = true ↔ Asks .httpServer front
  cam : s.isCam = true ↔ Asks .cam front
  sms : s.isSms = true ↔ Asks .sms front

theorem asks_append : Asks kind (front ++ [x]) ↔ Asks kind front ∨ ∃ info, x.1.device x.2 = some info ∧
    info.kind = kind := by
  simp [Asks,or_and_right,exists_or]

theorem initial_bits (junk : BanoBase) (info : BanoBaseInfo) : Bits [] (BanoBase.initial junk info) := by
  constructor <;> simp [Asks,BanoBase.initial]

/-- What the sections do to the devices but the servers and pipes. -/
theorem startHttpd_frame {s s' : BanoBase} (result : s.startHttpd answer info = some (err,s')) :
    s' = { s with
      base := s'.base, httpd := s'.httpd, isHttpd := s'.isHttpd
      devices := { s.devices with servers := s'.devices.servers, pipes := s'.devices.pipes } } ∧
    (err = 0 → s'.isHttpd = true) := by
  obtain ⟨sockets,added,_⟩ := banoAddSocket_some s.base .httpd
  unfold BanoBase.startHttpd banoHttpdInit at result
  rw [added] at result
  cases answer
  all_goals
    obtain ⟨rfl,rfl⟩ := Prod.mk.inj (Option.some.inj result)
    exact ⟨rfl,by simp⟩

theorem openSms_cases (s : BanoBase) (env : OpenEnv) (sslOpens : Bool) (info : BanoSmsInfo) :
    s.openSms env sslOpens info = none ∨ s.openSms env sslOpens info = some (-1,s) ∨
    s.openSms env sslOpens info = some (0,{ s with
      isSms := true
      sms := s.devices.sessions.next
      devices := { s.devices with sessions := s.devices.sessions.alloc () } }) := by
  by_cases spared : SmsSpared env sslOpens
  · exact .inr (.inl (openSms_spared s info spared))
  by_cases fits : SmsFits env info
  · exact .inr (.inr (openSms_open s spared fits))
  · exact .inl (openSms_unfit s spared fits)

theorem Bits.step {s s' : BanoBase} (bits : Bits front s) (result : applyStruct env x.1 x.2 s = some (0,s')) :
    Bits (front ++ [x]) s' := by
  have application := applyStruct_application env x.1 x.2 s
  rw [result] at application
  generalize same : some ((0 : Int),s') = r at application
  have put : ∀ t : BanoBase, ∀ info, x.1.device x.2 = some info → t.isHttpd = (s.isHttpd || info.kind = .httpServer) →
      t.isCam = (s.isCam || info.kind = .cam) → t.isSms = (s.isSms || info.kind = .sms) → Bits (front ++ [x]) t := by
    intro t info device isHttpd isCam isSms
    constructor
    · simp [asks_append,isHttpd,device,bits.httpd]
    · simp [asks_append,isCam,device,bits.cam]
    · simp [asks_append,isSms,device,bits.sms]
  cases application with
  | sets err t device _ kept =>
    obtain ⟨rfl,rfl⟩ := Prod.mk.inj (Option.some.inj same)
    rw [kept]
    constructor
    · simp [asks_append,device,bits.httpd]
    · simp [asks_append,device,bits.cam]
    · simp [asks_append,device,bits.sms]
  | httpd info device =>
    obtain ⟨frame,started⟩ := startHttpd_frame same.symm
    have isHttpd := started rfl
    exact put s' _ device (by simp [isHttpd,DeviceInfo.kind]) (by rw [frame]; simp [DeviceInfo.kind])
      (by rw [frame]; simp [DeviceInfo.kind])
  | cam info device =>
    by_cases invalid : info.fmt = .invalid
    · rw [openCam_invalid s x.2.cam invalid] at same
      simp at same
    · have opening := openCam_opening s x.2.cam invalid
      rw [← Option.some.inj same] at opening
      generalize pair : ((0 : Int),s') = q at opening
      cases opening with
      | failed => simp at pair
      | dummy =>
        obtain rfl := (Prod.mk.inj pair).2
        exact put _ _ device (by simp [DeviceInfo.kind]) (by simp [DeviceInfo.kind]) (by simp [DeviceInfo.kind])
      | streams =>
        obtain rfl := (Prod.mk.inj pair).2
        exact put _ _ device (by simp [DeviceInfo.kind]) (by simp [DeviceInfo.kind]) (by simp [DeviceInfo.kind])
  | sms info device =>
    rcases openSms_cases s env x.2.sslOpens info with failed | failed | opened
    · simp [failed] at same
    · simp [failed] at same
    · rw [opened] at same
      obtain rfl := (Prod.mk.inj (Option.some.inj same)).2
      exact put _ _ device (by simp [DeviceInfo.kind]) (by simp [DeviceInfo.kind]) (by simp [DeviceInfo.kind])

namespace InHand

theorem sets {s s' : BanoBase} (held : InHand s) (sets : Sets strukt err s.base s'.base)
    (same : s' = { s with base := s'.base, addr := s'.addr }) : InHand s' := by
  rw [same]
  exact ⟨sets.stocked held.stocked,held.bmp,held.fd,held.fb,held.captures,held.session,held.server,held.pipe⟩

theorem startHttpd {s : BanoBase} (held : InHand s) (info : BanoHttpdInfo)
    (careful : s.isHttpd = true → answer = .noPipe ∨ answer = .starts) :
    ∃ err s', s.startHttpd answer info = some (err,s') ∧ InHand s' := by
  obtain ⟨sockets,added,entries⟩ := banoAddSocket_some s.base .httpd
  have stocked := held.stocked.addSocket entries .httpd
  -- a failure past the pipe leaves a stale pipe or no server, which nobody reads while the bit is not set
  have unset : answer ≠ .noPipe → answer ≠ .starts → ¬s.isHttpd = true := fun pipe starts httpd =>
    (careful httpd).elim pipe starts
  unfold BanoBase.startHttpd banoHttpdInit
  rw [added]
  cases answer with
  | noPipe => exact ⟨_,_,rfl,stocked,held.bmp,held.fd,held.fb,held.captures,held.session,held.server,held.pipe⟩
  | noMutex =>
    have closed := unset nofun nofun
    exact ⟨_,_,rfl,stocked,held.bmp,held.fd,held.fb,held.captures,held.session,fun on => absurd on closed,
      fun on => absurd on closed⟩
  | noCond =>
    have closed := unset nofun nofun
    exact ⟨_,_,rfl,stocked,held.bmp,held.fd,held.fb,held.captures,held.session,fun on => absurd on closed,
      fun on => absurd on closed⟩
  | noServer =>
    have closed := unset nofun nofun
    exact ⟨_,_,rfl,stocked,held.bmp,held.fd,held.fb,held.captures,held.session,fun on => absurd on closed,
      fun on => absurd on closed⟩
  | starts =>
    exact ⟨_,_,rfl,stocked,held.bmp,held.fd,held.fb,held.captures,held.session,
      fun _ => ⟨_,rfl,(),Heap.alloc_cell_next _ _⟩,fun _ => ⟨(),Heap.alloc_cell_next _ _⟩⟩

theorem openCam {s : BanoBase} {info : BanoCamInfo} (held : InHand s) (answer : CamAnswer)
    (careful : s.isCam = true → info.fmt = .invalid) : InHand (s.openCam answer info).2 := by
  by_cases invalid : info.fmt = .invalid
  · rw [openCam_invalid s answer invalid]
    exact held
  have unset : ¬s.isCam = true := fun cam => invalid (careful cam)
  have bmp := held.bmp
  have fd := held.fd
  have fb := held.fb
  simp only [BanoBase.bmp,BanoBase.fd,BanoBase.fb,unset,Bool.false_and] at bmp fd fb
  have noBmp := Heap.only_none.mp bmp
  have opening := openCam_opening s answer invalid
  generalize s.openCam answer info = result at opening ⊢
  cases opening with
  | failed cam fds _ cells =>
    refine ⟨held.stocked,?_,?_,?_,fun on => absurd on unset,held.session,held.server,held.pipe⟩
    · simp only [BanoBase.bmp,unset]
      exact bmp.same (Heap.alloc_erase_cell _ ())
    · simp only [BanoBase.fd,unset,Bool.false_and]
      exact fd.same cells
    · simp only [BanoBase.fb,unset,Bool.false_and]
      exact fb
  | dummy cam named dummy =>
    refine ⟨held.stocked,?_,?_,?_,fun _ off => Bool.noConfusion (dummy.symm.trans off),held.session,
      held.server,held.pipe⟩
    · simp only [BanoBase.bmp,if_true,named]
      exact noBmp.alloc ()
    · simp only [BanoBase.fd,dummy]
      exact fd
    · simp only [BanoBase.fb,dummy]
      exact fb
  | streams cam named device opened streaming =>
    refine ⟨held.stocked,?_,?_,?_,fun _ _ => by simp [opened],held.session,held.server,held.pipe⟩
    · simp only [BanoBase.bmp,if_true,named]
      exact noBmp.alloc ()
    · simp only [BanoBase.fd,device,opened,Bool.not_false,Bool.and_self,if_true]
      exact (Heap.only_none.mp fd).alloc ()
    · simp only [BanoBase.fb,device,streaming,Bool.not_false,Bool.and_self,if_true]
      exact (Heap.only_none.mp fb).alloc ()

theorem openSms {s : BanoBase} {info : BanoSmsInfo} (held : InHand s)
    (careful : SmsSpared env sslOpens ∨ SmsFits env info ∧ ¬s.isSms = true) :
    ∃ err s', s.openSms env sslOpens info = some (err,s') ∧ InHand s' := by
  by_cases spared : SmsSpared env sslOpens
  · exact ⟨-1,s,openSms_spared s info spared,held⟩
  obtain ⟨fits,fresh⟩ := careful.resolve_left spared
  have session := held.session
  simp only [BanoBase.session,fresh] at session
  refine ⟨0,_,openSms_open s spared fits,held.stocked,held.bmp,held.fd,held.fb,held.captures,?_,held.server,held.pipe⟩
  simp only [BanoBase.session,if_true]
  exact (Heap.only_none.mp session).alloc ()

/-- A careful section has a result, accepted or not, whose handles hold what is open. -/
theorem step {s : BanoBase} (held : InHand s) (bits : Bits front s) (careful : Careful env front x) :
    ∃ err s', applyStruct env x.1 x.2 s = some (err,s') ∧ InHand s' := by
  have application := applyStruct_application env x.1 x.2 s
  generalize applyStruct env x.1 x.2 s = result at application
  unfold Careful at careful
  cases application with
  | sets err s' _ sets same => exact ⟨err,s',rfl,held.sets sets same⟩
  | httpd info device =>
    rw [device] at careful
    exact held.startHttpd info fun on => careful (bits.httpd.mp on)
  | cam info device =>
    rw [device] at careful
    exact ⟨_,_,rfl,held.openCam x.2.cam fun on => careful (bits.cam.mp on)⟩
  | sms info device =>
    rw [device] at careful
    exact held.openSms (careful.imp_right fun ⟨fits,fresh⟩ => ⟨fits,fun on => fresh (bits.sms.mp on)⟩)

end InHand

/-- A bmp or a session was lost: it is open and no handle names it. -/
def Leaky (s : BanoBase) : Prop := s.devices.bmps.Stray s.cam.bmp ∨ s.devices.sessions.Stray s.sms

theorem Leaky.openCam {s : BanoBase} {info : BanoCamInfo} (leaky : Leaky s) (answer : CamAnswer) :
    Leaky (s.openCam answer info).2 := by
  by_cases invalid : info.fmt = .invalid
  · rw [openCam_invalid s answer invalid]
    exact leaky
  have opening := openCam_opening s answer invalid
  generalize s.openCam answer info = result at opening ⊢
  rcases leaky with bmp | session
  · left
    obtain ⟨q,_,u,live⟩ := id bmp
    cases opening with
    | failed cam fds named _ =>
      simp only [named]
      exact bmp.renewed ()
    | dummy cam named _ =>
      simp only [named]
      exact Heap.stray_alloc live ()
    | streams cam named _ _ _ =>
      simp only [named]
      exact Heap.stray_alloc live ()
  · right
    cases opening with
    | failed => exact session
    | dummy => exact session
    | streams => exact session

theorem Leaky.step {s s' : BanoBase} (leaky : Leaky s)
    (result : applyStruct env strukt a s = some (err,s')) : Leaky s' := by
  have application := applyStruct_application env strukt a s
  rw [result] at application
  generalize same : some (err,s') = r at application
  cases application with
  | sets err' t _ _ kept =>
    obtain ⟨rfl,rfl⟩ := Prod.mk.inj (Option.some.inj same)
    rw [kept]
    exact leaky
  | httpd info _ =>
    rw [(startHttpd_frame same.symm).1]
    exact leaky
  | cam info _ =>
    have camera : Leaky (s.openCam a.cam info).2 := leaky.openCam a.cam
    rw [← Option.some.inj same] at camera
    exact camera
  | sms info _ =>
    rcases openSms_cases s env a.sslOpens info with failed | failed | opened
    · simp [failed] at same
    · rw [failed] at same
      obtain rfl := (Prod.mk.inj (Option.some.inj same)).2
      exact leaky
    · rw [opened] at same
      obtain rfl := (Prod.mk.inj (Option.some.inj same)).2
      apply leaky.imp id
      intro session
      obtain ⟨q,_,u,live⟩ := session
      exact Heap.stray_alloc live ()

theorem applyStructs_cons (result : applyStruct env x.1 x.2 s = some (err,s')) :
    applyStructs env (x :: conf) s = if err ≠ 0 then some (err,s') else applyStructs env conf s' := by
  obtain ⟨strukt,a⟩ := x
  simp [applyStructs,result]

theorem Leaky.run {s s' : BanoBase} (leaky : Leaky s)
    (result : applyStructs env conf s = some (err,s')) : Leaky s' := by
  induction conf generalizing s with
  | nil =>
    obtain rfl := (Prod.mk.inj (Option.some.inj result)).2
    exact leaky
  | cons x conf ih =>
    obtain ⟨⟨err',mid⟩,applied,rest⟩ := Option.bind_eq_some_iff.mp result
    dsimp only at rest
    split at rest
    · obtain rfl := (Prod.mk.inj (Option.some.inj rest)).2
      exact leaky.step applied
    · exact ih (leaky.step applied) rest

theorem stopHttpd_same {s : BanoBase} (result : s.stopHttpd d = some d') :
    d'.bmps = d.bmps ∧ d'.sessions = d.sessions := by
  unfold BanoBase.stopHttpd at result
  split at result
  · obtain ⟨server,_,result⟩ := Option.bind_eq_some_iff.mp result
    obtain ⟨servers,_,result⟩ := Option.bind_eq_some_iff.mp result
    obtain ⟨pipes,_,same⟩ := Option.bind_eq_some_iff.mp result
    obtain rfl := Option.some.inj same
    exact ⟨rfl,rfl⟩
  · obtain rfl := Option.some.inj result
    exact ⟨rfl,rfl⟩

theorem stopMmap_same {cam : BanoCamHandle} (result : stopMmap cam d = some d') :
    d'.bmps = d.bmps ∧ d'.sessions = d.sessions := by
  unfold stopMmap at result
  split at result
  · obtain rfl := Option.some.inj result
    exact ⟨rfl,rfl⟩
  · obtain ⟨fbs,_,same⟩ := Option.bind_eq_some_iff.mp result
    obtain rfl := Option.some.inj same
    exact ⟨rfl,rfl⟩

theorem stopCam_same {s : BanoBase} (result : s.stopCam d = some d') :
    (d'.bmps = d.bmps ∨ d'.bmps = d.bmps.erase s.cam.bmp) ∧ d'.sessions = d.sessions := by
  unfold BanoBase.stopCam at result
  split at result
  · obtain ⟨bmps,freed,result⟩ := Option.bind_eq_some_iff.mp result
    obtain ⟨_,rfl⟩ := Heap.free_eq_some.mp freed
    dsimp only at result
    split at result
    · obtain rfl := Option.some.inj result
      exact ⟨.inr rfl,rfl⟩
    · obtain ⟨mid,stopped,result⟩ := Option.bind_eq_some_iff.mp result
      obtain ⟨bmps,sessions⟩ := stopMmap_same stopped
      obtain ⟨p,_,result⟩ := Option.bind_eq_some_iff.mp result
      obtain ⟨fds,_,same⟩ := Option.bind_eq_some_iff.mp result
      obtain rfl := Option.some.inj same
      exact ⟨.inr bmps,sessions⟩
  · obtain rfl := Option.some.inj result
    exact ⟨.inl rfl,rfl⟩

theorem stopSms_same {s : BanoBase} (result : s.stopSms d = some d') :
    d'.bmps = d.bmps ∧ (d'.sessions = d.sessions ∨ d'.sessions = d.sessions.erase s.sms) := by
  unfold BanoBase.stopSms at result
  split at result
  · obtain ⟨sessions,freed,same⟩ := Option.bind_eq_some_iff.mp result
    obtain ⟨_,rfl⟩ := Heap.free_eq_some.mp freed
    obtain rfl := Option.some.inj same
    exact ⟨rfl,.inr rfl⟩
  · obtain rfl := Option.some.inj result
    exact ⟨rfl,.inl rfl⟩

/-- What is lost is not closed in the end. -/
theorem Leaky.finish {s s' : BanoBase} (leaky : Leaky s) (result : s.finish = some s') : ¬AllClosed s' := by
  rw [BanoBase.finish_eq] at result
  obtain ⟨d1,httpd,result⟩ := Option.bind_eq_some_iff.mp result
  obtain ⟨d2,cam,result⟩ := Option.bind_eq_some_iff.mp result
  obtain ⟨d3,sms,result⟩ := Option.bind_eq_some_iff.mp result
  obtain ⟨b,_,same⟩ := Option.bind_eq_some_iff.mp result
  obtain rfl := Option.some.inj same
  obtain ⟨bmps1,sessions1⟩ := stopHttpd_same httpd
  obtain ⟨bmps2,sessions2⟩ := stopCam_same cam
  obtain ⟨bmps3,sessions3⟩ := stopSms_same sms
  intro closed
  rcases leaky with bmp | session
  · have vacant : d3.bmps.Vacant := closed.bmp
    rw [bmps3] at vacant
    rcases bmps2 with kept | erased
    · rw [kept,bmps1] at vacant
      exact bmp.not_vacant vacant
    · rw [erased,bmps1] at vacant
      exact bmp.not_vacant_erase vacant
  · have vacant : d3.sessions.Vacant := closed.session
    rcases sessions3 with kept | erased
    · rw [kept,sessions2,sessions1] at vacant
      exact session.not_vacant vacant
    · rw [erased,sessions2,sessions1] at vacant
      exact session.not_vacant_erase vacant

/-- The handle of the camera or of the server is stale. -/
def Stale (s : BanoBase) : Prop :=
  s.isCam = true ∧ s.devices.bmps.cell s.cam.bmp = none ∨
  s.isHttpd = true ∧ (s.httpd.server = none ∨ s.devices.pipes.cell s.httpd.pipe = none)

/-- Closing reads what is not open. -/
theorem Stale.finish {s : BanoBase} (stale : Stale s) : s.finish = none := by
  rw [BanoBase.finish_eq,Option.eq_none_iff_forall_ne_some]
  intro s' result
  obtain ⟨d1,httpd,result⟩ := Option.bind_eq_some_iff.mp result
  obtain ⟨d2,cam,_⟩ := Option.bind_eq_some_iff.mp result
  rcases stale with ⟨isCam,none⟩ | ⟨isHttpd,none⟩
  · rw [BanoBase.stopCam,if_pos isCam] at cam
    obtain ⟨bmps,freed,_⟩ := Option.bind_eq_some_iff.mp cam
    obtain ⟨⟨u,live⟩,_⟩ := Heap.free_eq_some.mp freed
    rw [(stopHttpd_same httpd).1,none] at live
    exact nomatch live
  · rw [BanoBase.stopHttpd,if_pos isHttpd] at httpd
    obtain ⟨server,some,httpd⟩ := Option.bind_eq_some_iff.mp httpd
    obtain ⟨servers,_,httpd⟩ := Option.bind_eq_some_iff.mp httpd
    obtain ⟨pipes,freed,_⟩ := Option.bind_eq_some_iff.mp httpd
    obtain ⟨⟨u,live⟩,_⟩ := Heap.free_eq_some.mp freed
    rcases none with noServer | noPipe
    · exact nomatch noServer.symm.trans some
    · exact nomatch noPipe.symm.trans live

/-- A careless section has no result, loses what was open, or fails and leaves a stale handle. -/
theorem careless_step (held : InHand s) (bits : Bits front s) (careless : ¬Careful env front x) :
    applyStruct env x.1 x.2 s = none ∨
    ∃ err s', applyStruct env x.1 x.2 s = some (err,s') ∧ (Leaky s' ∨ err ≠ 0 ∧ Stale s') := by
  have application := applyStruct_application env x.1 x.2 s
  generalize applyStruct env x.1 x.2 s = result at application ⊢
  unfold Careful at careless
  cases application with
  | sets err s' device _ _ =>
    rw [device] at careless
    exact absurd trivial careless
  | httpd info device =>
    rw [device] at careless
    simp only [Classical.not_imp,not_or] at careless
    obtain ⟨on,pipe,starts⟩ := careless
    have isHttpd := bits.httpd.mpr on
    obtain ⟨sockets,added,_⟩ := banoAddSocket_some s.base .httpd
    unfold BanoBase.startHttpd banoHttpdInit
    rw [added]
    right
    cases answer : x.2.httpd with
    | noPipe => exact absurd answer pipe
    | noMutex => exact ⟨_,_,rfl,.inr ⟨by decide,.inr ⟨isHttpd,.inr (Heap.erase_cell_same _ _)⟩⟩⟩
    | noCond => exact ⟨_,_,rfl,.inr ⟨by decide,.inr ⟨isHttpd,.inr (Heap.erase_cell_same _ _)⟩⟩⟩
    | noServer => exact ⟨_,_,rfl,.inr ⟨by decide,.inr ⟨isHttpd,.inl rfl⟩⟩⟩
    | starts => exact absurd answer starts
  | cam info device =>
    rw [device] at careless
    simp only [Classical.not_imp] at careless
    obtain ⟨on,valid⟩ := careless
    have isCam := bits.cam.mpr on
    have bmp := held.bmp
    simp only [BanoBase.bmp,isCam,if_true] at bmp
    obtain ⟨u,live⟩ := bmp.live
    have opening := openCam_opening s x.2.cam valid
    generalize s.openCam x.2.cam info = opened at opening ⊢
    refine .inr ⟨_,_,rfl,?_⟩
    cases opening with
    | failed cam fds named _ =>
      refine .inr ⟨show (-1 : Int) ≠ 0 by decide,.inl ⟨isCam,?_⟩⟩
      simp only [named]
      exact Heap.erase_cell_same _ _
    | dummy cam named _ =>
      refine .inl (.inl ?_)
      simp only [named]
      exact Heap.stray_alloc live ()
    | streams cam named _ _ _ =>
      refine .inl (.inl ?_)
      simp only [named]
      exact Heap.stray_alloc live ()
  | sms info device =>
    rw [device] at careless
    simp only [not_or,not_and_or,not_not] at careless
    obtain ⟨unspared,unfit | on⟩ := careless
    · exact .inl (openSms_unfit s unspared unfit)
    by_cases fits : SmsFits env info
    · refine .inr ⟨_,_,openSms_open s unspared fits,.inl (.inr ?_)⟩
      have session := held.session
      simp only [BanoBase.session,bits.sms.mpr on,if_true] at session
      obtain ⟨u,live⟩ := session.live
      exact Heap.stray_alloc live ()
    · exact .inl (openSms_unfit s unspared fits)

/-- bano_open and, where it succeeds, bano_close. None: something is closed or read that is not open. -/
def openAndClose (env : OpenEnv) (junk : BanoBase) (info : BanoBaseInfo)
    (conf : Option (List (ConfSection × Answers))) :
    Option BanoBase := do
  let (err,s) ← BanoBase.banoOpen env junk info conf
  if err ≠ 0 then some s
  else
    let (_,s) ← s.banoClose
    some s

/-- What was opened is closed, once, and nothing else is. -/
def Closes (env : OpenEnv) (junk : BanoBase) (info : BanoBaseInfo)
    (conf : Option (List (ConfSection × Answers))) : Prop :=
  ∃ s, openAndClose env junk info conf = some s ∧ AllClosed s

/-- The lines of finish are run once, in bano_open or in bano_close. -/
theorem openAndClose_finish (env : OpenEnv) (junk : BanoBase) (info : BanoBaseInfo)
    (conf : List (ConfSection × Answers))
    (reads : info.flags &&& baseFlagConf ≠ 0) : openAndClose env junk info (some conf) =
      (applyStructs env conf (BanoBase.initial junk info)).bind fun r => r.2.finish := by
  unfold openAndClose BanoBase.banoOpen
  rw [if_pos reads]
  dsimp only
  cases applied : applyStructs env conf (BanoBase.initial junk info) with
  | none => rfl
  | some r =>
    obtain ⟨err,s⟩ := r
    by_cases failed : err = 0
    · cases finished : s.finish <;> simp [failed,BanoBase.banoClose,finished]
    · cases finished : s.finish <;> simp [failed,finished]

/-- The sections after those of `front` that are applied are careful. -/
def EachCareful (env : OpenEnv) (front conf : List (ConfSection × Answers)) (s : BanoBase) : Prop :=
  ∀ mid x back t, conf = mid ++ x :: back → applyStructs env mid s = some (0,t) → Careful env (front ++ mid) x

theorem eachCareful_cons (applied : applyStruct env x.1 x.2 s = some (err,s')) : EachCareful env front (x :: conf) s ↔
    Careful env front x ∧ (err = 0 → EachCareful env (front ++ [x]) conf s') := by
  constructor
  · intro each
    refine ⟨?_,fun fine mid y back t same rest => ?_⟩
    · have here := each [] x conf s rfl rfl
      rwa [List.append_nil] at here
    · have later := each (x :: mid) y back t (by rw [same]; rfl) (by rw [applyStructs_cons applied,fine]; exact rest)
      rwa [List.append_assoc]
  · rintro ⟨careful,later⟩ mid y back t same rest
    cases mid with
    | nil =>
      obtain ⟨rfl,_⟩ := List.cons.inj same
      rwa [List.append_nil]
    | cons z mid =>
      obtain ⟨rfl,same'⟩ := List.cons.inj same
      rw [applyStructs_cons applied] at rest
      split at rest
      · next failed => exact absurd (Prod.mk.inj (Option.some.inj rest)).1 failed
      · next fine =>
        have there := later (not_not.mp fine) mid y back t same' rest
        rwa [List.append_assoc] at there

theorem finish_iff {s : BanoBase} (held : InHand s) (bits : Bits front s) :
    (∃ s', ((applyStructs env conf s).bind fun r => r.2.finish) = some s' ∧ AllClosed s') ↔
    EachCareful env front conf s := by
  induction conf generalizing s front with
  | nil =>
    apply iff_of_true held.finish
    intro mid x back t same _
    simp at same
  | cons x conf ih =>
    by_cases careful : Careful env front x
    · obtain ⟨err,mid,applied,held'⟩ := held.step bits careful
      rw [eachCareful_cons applied,applyStructs_cons applied]
      by_cases fine : err = 0
      · rw [if_neg (not_not.mpr fine)]
        subst fine
        exact (ih held' (bits.step applied)).trans ⟨fun each => ⟨careful,fun _ => each⟩,fun both => both.2 rfl⟩
      · rw [if_pos fine]
        exact iff_of_true held'.finish ⟨careful,fun zero => absurd zero fine⟩
    · refine iff_of_false ?_ fun each => ?_
      · rintro ⟨s',finished,closed⟩
        obtain ⟨⟨err',last⟩,ran,finished⟩ := Option.bind_eq_some_iff.mp finished
        rcases careless_step held bits careful with stuck | ⟨err,mid,applied,lost⟩
        · obtain ⟨strukt,a⟩ := x
          simp [applyStructs,stuck] at ran
        rw [applyStructs_cons applied] at ran
        rcases lost with leaky | ⟨failed,stale⟩
        · split at ran
          · obtain rfl := (Prod.mk.inj (Option.some.inj ran)).2
            exact leaky.finish finished closed
          · exact (leaky.run ran).finish finished closed
        · rw [if_pos failed] at ran
          obtain rfl := (Prod.mk.inj (Option.some.inj ran)).2
          exact nomatch stale.finish.symm.trans finished
      · have here := each [] x conf s rfl rfl
        rw [List.append_nil] at here
        exact careful here

/-- Opening and closing release everything once if and only if each section that is applied is careful. -/
theorem closes_iff : Closes env junk info conf ↔ ∀ sections, conf = some sections →
    info.flags &&& baseFlagConf ≠ 0 →
    ∀ front x back s, sections = front ++ x :: back →
      applyStructs env front (BanoBase.initial junk info) = some (0,s) →
      Careful env front x := by
  have start := initial_held junk info
  by_cases reads : info.flags &&& baseFlagConf ≠ 0
  · cases conf with
    | none =>
      obtain ⟨s,finished,closed⟩ := start.finish
      refine iff_of_true ⟨s,?_,closed⟩ nofun
      rw [openAndClose,BanoBase.banoOpen,if_pos reads]
      simp [finished]
    | some conf =>
      rw [Closes,openAndClose_finish env junk info conf reads,finish_iff start (initial_bits junk info)]
      constructor
      · rintro each sections same _
        obtain rfl := Option.some.inj same
        exact each
      · intro each
        exact each conf rfl reads
  · obtain ⟨s,finished,closed⟩ := start.finish
    refine iff_of_true ⟨s,?_,closed⟩ fun _ _ read => absurd read reads
    have opened : BanoBase.banoOpen env junk info conf = some (0,BanoBase.initial junk info) := by
      unfold BanoBase.banoOpen
      exact if_neg reads
    simp [openAndClose,opened,BanoBase.banoClose,finished]

/-- Two cameras without a device. -/
def twoCams : List (ConfSection × Answers) :=
  [(confSection "cam" [("fmt","yuyv_320_240"),("dummy","yes")],goodAnswers),
    (confSection "cam" [("fmt","yuyv_640_480"),("dummy","yes")],goodAnswers)]

theorem cameras_twice : ¬∀ env junk info conf, Closes env junk info conf := by
  intro closes
  obtain ⟨s,result,closed⟩ := closes oneDescription junkBase confInfo (some twoCams)
  obtain ⟨s',result',live⟩ : ∃ s, openAndClose oneDescription junkBase confInfo (some twoCams) = some s ∧
      s.devices.bmps.cell 0 = some () := Option.map_eq_some_iff.mp rfl
  obtain rfl := Option.some.inj (result.symm.trans result')
  exact nomatch (closed.bmp 0).symm.trans live

end Bano
