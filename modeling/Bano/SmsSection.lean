import Bano.Credentials
import Bano.PairOrders

/-! Opening the SMS service from a section of the configuration, in any environment. -/
namespace Bano

open Lib

/-- The sms branch of apply_struct; `junk` is what the info held before in place of the credentials. -/
def applySmsStruct {aes : Aes} (env : SmsEnv) (pairs : List (Token × Text)) (junk : Bytes smsCredsSize)
    (sms : SmsHandle aes) :
    Option (Int × SmsHandle aes) :=
  let (err,info) := banoParserForeachPair applySmsPair pairs ⟨none,none,junk.1⟩
  if err ≠ 0 then some (err,sms)
  else do
    let (err,sms) ← sms.banoSmsOpen env info
    if err ≠ 0 then some (-1,sms) else some (0,sms)

/-- The call fails with -1 or succeeds. -/
def OpensSafely (result : Option (Int × SmsHandle aes)) : Prop := ∃ err sms, result = some (err,sms) ∧
    (err = -1 ∨ err = 0)

namespace SmsSetting

def addr? : SmsSetting → Option Token
  | .addr s => some s
  | _ => none

def port? : SmsSetting → Option Token
  | .port s => some s
  | _ => none

end SmsSetting

/-- The last of the values that the pairs of a section give. -/
def lastGiven (which : SmsSetting → Option Token) (pairs : List (Token × Text)) : Option Token :=
  ((pairs.filterMap readSms).filterMap which).getLast?

/-- The key is not empty, and an address that is given has a port and fits its array. -/
structure SectionFits (key : List UInt8) (pairs : List (Token × Text)) : Prop where
  key : key ≠ []
  address : ∀ addr, lastGiven SmsSetting.addr? pairs = some addr →
    lastGiven SmsSetting.port? pairs ≠ none ∧ addr.length < smsAddrSize

theorem writeAll_sms (ss : List SmsSetting) (creds : List UInt8) (size : creds.length = smsCredsSize)
    (sizes : ∀ bytes, .creds bytes ∈ ss → bytes.length = smsCredsSize) :
    let info := writeAll SmsSetting.write ss ⟨none,none,creds⟩
    info.addr = (ss.filterMap SmsSetting.addr?).getLast? ∧ info.port = (ss.filterMap SmsSetting.port?).getLast? ∧
      info.creds.length = smsCredsSize := by
  induction ss using List.reverseRecOn with
  | nil => exact ⟨rfl,rfl,size⟩
  | append_singleton ss s ih =>
    obtain ⟨addr,port,length⟩ := ih fun bytes member => sizes bytes (List.mem_append_left _ member)
    simp only [writeAll_append,writeAll_cons,writeAll_nil,List.filterMap_append,List.getLast?_append]
    cases s with
    | addr s => exact ⟨rfl,by simpa [SmsSetting.port?,SmsSetting.write] using port,length⟩
    | port s => exact ⟨by simpa [SmsSetting.addr?,SmsSetting.write] using addr,rfl,length⟩
    | creds bytes =>
      exact ⟨by simpa [SmsSetting.addr?,SmsSetting.write] using addr,
        by simpa [SmsSetting.port?,SmsSetting.write] using port,sizes bytes (by simp)⟩

theorem readSms_creds (read : readSms pair = some (.creds bytes)) : bytes.length = smsCredsSize := by
  unfold readSms at read
  split_ifs at read
  · exact nomatch Option.some.inj read
  · exact nomatch Option.some.inj read
  · obtain ⟨_,decoded,same⟩ := Option.map_eq_some_iff.mp read
    obtain rfl := SmsSetting.creds.inj same
    unfold banoStringToArray at decoded
    split_ifs at decoded
    obtain rfl := Option.some.inj decoded
    simp

theorem applySmsPair_err (pair : Token × Text) (info : BanoSmsInfo) :
    (applySmsPair pair info).1 = 0 ∨ (applySmsPair pair info).1 = -1 := by
  unfold applySmsPair
  split_ifs
  · exact .inl rfl
  · exact .inl rfl
  · cases banoStringToArray pair.2 smsCredsSize
    · exact .inr rfl
    · exact .inl rfl
  · exact .inr rfl

theorem applySmsPairs_err (pairs : List (Token × Text)) (info : BanoSmsInfo) :
    (banoParserForeachPair applySmsPair pairs info).1 = 0 ∨
    (banoParserForeachPair applySmsPair pairs info).1 = -1 := by
  induction pairs generalizing info with
  | nil => exact .inl rfl
  | cons pair pairs ih =>
    rw [banoParserForeachPair]
    dsimp only
    split
    · next failed => exact .inr ((applySmsPair_err pair info).resolve_left failed)
    · exact ih _

/-- The pairs fail, or the last of each kind is taken. -/
theorem applySmsPairs_info (pairs : List (Token × Text)) (junk : Bytes smsCredsSize) :
    (∃ pair ∈ pairs, readSms pair = none) ∧ (banoParserForeachPair applySmsPair pairs ⟨none,none,junk.1⟩).1 = -1 ∨
    (∀ pair ∈ pairs, readSms pair ≠ none) ∧ ∃ info,
      banoParserForeachPair applySmsPair pairs ⟨none,none,junk.1⟩ = (0,info) ∧
      info.addr = lastGiven SmsSetting.addr? pairs ∧ info.port = lastGiven SmsSetting.port? pairs ∧
      info.creds.length = smsCredsSize := by
  by_cases refused : ∃ pair ∈ pairs, readSms pair = none
  · obtain ⟨pair,member,none⟩ := refused
    have fails := applySmsPair_settles.foreachPair_refused member none ⟨.none,.none,junk.1⟩
    refine .inl ⟨⟨pair,member,none⟩,(applySmsPairs_err pairs _).resolve_left fun zero => ?_⟩
    rw [yields,if_pos zero] at fails
    cases fails
  · push Not at refused
    refine .inr ⟨refused,_,applySmsPair_settles.foreachPair_written refused _,?_⟩
    apply writeAll_sms _ junk.1 junk.2
    intro bytes member
    obtain ⟨pair,_,read⟩ := List.mem_filterMap.mp member
    exact readSms_creds read

namespace SmsHandle

variable {aes : Aes} {env : SmsEnv}

/-- With a key that is not empty everything but the address succeeds. -/
theorem banoSmsOpen_key (takes : aes.TakesKeys) (sms : SmsHandle aes) (serves : env.Serves key) (nonempty : key ≠ [])
    (info : BanoSmsInfo) (size : info.creds.length = smsCredsSize) :
    ∃ sms₁ : SmsHandle aes, sms.banoSmsOpen env info = (sms₁.setAddress env info).map fun s => (0,s) := by
  obtain ⟨buf,stretched⟩ := Option.isSome_iff_exists.mp ((stretchKey_iff key).mpr nonempty)
  obtain ⟨k,inits⟩ := Option.isSome_iff_exists.mp (takes buf)
  obtain ⟨_,_,_,_,layout,lengthL,lengthP,ciphers⟩ := ciphers_of_creds aes k ⟨info.creds,size⟩
  obtain ⟨_,_,opened,_,_⟩ := sms.banoSmsOpen_creds info serves.opens serves.given stretched inits rfl layout
    lengthL lengthP ciphers
  exact ⟨_,opened⟩

/-- An empty key has no remainder. -/
theorem banoSmsOpen_empty (sms : SmsHandle aes) (serves : env.Serves []) (info : BanoSmsInfo) :
    sms.banoSmsOpen env info = none := by
  simp [banoSmsOpen,serves.opens,serves.given,stretchKey]

theorem banoSmsOpen_unserved (sms : SmsHandle aes) (unserved : env.sslOpens = false ∨ env.smsKey = none)
    (info : BanoSmsInfo) :
    sms.banoSmsOpen env info = some (-1,sms) := by
  rcases unserved with closed | unset
  · simp [banoSmsOpen,closed]
  · cases env.sslOpens <;> simp [banoSmsOpen,unset]

/-- A service that is there is opened, or something undefined is done. -/
theorem banoSmsOpen_served (takes : aes.TakesKeys) (sms : SmsHandle aes) (serves : env.Serves key)
    (info : BanoSmsInfo)
    (size : info.creds.length = smsCredsSize) :
    (key ≠ [] ∧ info.AddressFits) ∧ (∃ sms', sms.banoSmsOpen env info = some (0,sms')) ∨
      ¬(key ≠ [] ∧ info.AddressFits) ∧ sms.banoSmsOpen env info = none := by
  by_cases empty : key = []
  · subst empty
    exact .inr ⟨fun fine => fine.1 rfl,sms.banoSmsOpen_empty serves info⟩
  · obtain ⟨sms₁,opened⟩ := sms.banoSmsOpen_key takes serves empty info size
    have address : (sms₁.setAddress env info).isSome ↔ info.AddressFits := setAddress_iff sms₁
    cases set : sms₁.setAddress env info with
    | none =>
      rw [set] at address opened
      exact .inr ⟨fun fine => absurd (address.mpr fine.2) (by simp),opened⟩
    | some sms' =>
      rw [set] at address opened
      exact .inl ⟨⟨empty,address.mp rfl⟩,sms',opened⟩

end SmsHandle

/-- The session of the base is opened with the same result. -/
theorem banoSmsOpen_session {aes : Aes} (takes : aes.TakesKeys) (sms : SmsHandle aes) (env : SmsEnv) {open' : OpenEnv}
    (same : open'.smsKey = env.smsKey) (inits : open'.aesInits = true) (info : BanoSmsInfo)
    (size : info.creds.length = smsCredsSize)
    (session : Nat) (d : Devices) :
    (sms.banoSmsOpen env info).map Prod.fst = (banoSmsOpen open' env.sslOpens info session d).map Prod.fst := by
  unfold banoSmsOpen
  cases opens : env.sslOpens with
  | false => simp [sms.banoSmsOpen_unserved (.inl opens)]
  | true =>
    rw [same,inits]
    cases given : env.smsKey with
    | none => simp [sms.banoSmsOpen_unserved (.inr given)]
    | some key =>
      have served := sms.banoSmsOpen_served takes ⟨opens,given⟩ info size
      cases key with
      | nil => simp [sms.banoSmsOpen_empty ⟨opens,given⟩]
      | cons c key =>
        cases addr : info.addr with
        | none =>
          have fits : info.AddressFits := fun a found => nomatch addr.symm.trans found
          obtain ⟨_,sms',opened⟩ := served.resolve_right fun unfit => unfit.1 ⟨nofun,fits⟩
          simp [opened]
        | some a =>
          by_cases long : info.port.isNone || smsAddrSize ≤ a.length
          · have unfit : ¬info.AddressFits := by
              intro fits
              obtain ⟨port,short⟩ := fits a addr
              simp [Option.isSome_iff_ne_none.mp port] at long
              omega
            obtain ⟨_,stuck⟩ := served.resolve_left fun fits => unfit fits.1.2
            simp [stuck,long]
          · have fits : info.AddressFits := by
              intro a' found
              obtain rfl := Option.some.inj (addr.symm.trans found)
              simpa [Option.isSome_iff_ne_none] using long
            obtain ⟨_,sms',opened⟩ := served.resolve_right fun unfit => unfit.1 ⟨nofun,fits⟩
            simp [opened,long]

theorem sectionFits_info {info : BanoSmsInfo} {pairs : List (Token × Text)}
    (addr : info.addr = lastGiven SmsSetting.addr? pairs)
    (port : info.port = lastGiven SmsSetting.port? pairs) : key ≠ [] ∧ info.AddressFits ↔ SectionFits key pairs := by
  have same : info.AddressFits ↔ ∀ a, lastGiven SmsSetting.addr? pairs = some a →
      lastGiven SmsSetting.port? pairs ≠ none ∧ a.length < smsAddrSize := by
    rw [BanoSmsInfo.AddressFits,addr,port]
    simp only [Option.isSome_iff_ne_none]
  rw [same]
  exact ⟨fun fine => ⟨fine.1,fine.2⟩,fun fine => ⟨fine.key,fine.address⟩⟩

/-- A section is refused, or there is no service to open, or the key and the address are fine. -/
theorem opensSafely_iff {aes : Aes} (takes : aes.TakesKeys) (env : SmsEnv) (pairs : List (Token × Text))
    (junk : Bytes smsCredsSize) (sms : SmsHandle aes) : OpensSafely (applySmsStruct env pairs junk sms) ↔
      (∃ pair ∈ pairs, readSms pair = none) ∨ env.sslOpens = false ∨ ∀ key, env.smsKey = some key →
      SectionFits key pairs := by
  rcases applySmsPairs_info pairs junk with ⟨refused,fails⟩ | ⟨taken,info,read,addr,port,size⟩
  · refine iff_of_true ⟨-1,sms,?_,.inl rfl⟩ (.inl refused)
    simp [applySmsStruct,fails]
  · have accepted : ¬∃ pair ∈ pairs, readSms pair = none := by simpa using taken
    rw [or_iff_right accepted]
    by_cases unserved : env.sslOpens = false ∨ env.smsKey = none
    · refine iff_of_true ⟨-1,sms,?_,.inl rfl⟩ ?_
      · simp [applySmsStruct,read,sms.banoSmsOpen_unserved unserved]
      · rcases unserved with closed | unset
        · exact .inl closed
        · exact .inr fun key given => nomatch unset.symm.trans given
    · rw [not_or,Bool.not_eq_false] at unserved
      obtain ⟨key,given⟩ := Option.ne_none_iff_exists'.mp unserved.2
      have condition : (env.sslOpens = false ∨ ∀ key, env.smsKey = some key → SectionFits key pairs) ↔
          SectionFits key pairs := by
        simp [unserved.1,given]
      rw [condition,← sectionFits_info addr port]
      rcases sms.banoSmsOpen_served takes ⟨unserved.1,given⟩ info size with ⟨fits,sms',opened⟩ | ⟨unfit,stuck⟩
      · refine iff_of_true ⟨0,sms',?_,.inr rfl⟩ fits
        simp [applySmsStruct,read,opened]
      · refine iff_of_false ?_ unfit
        rintro ⟨err,sms',result,_⟩
        simp [applySmsStruct,read,stuck] at result

/-- The sms branch of apply_struct on the base and on the handle of the service. -/
theorem applySmsStruct_base {aes : Aes} (takes : aes.TakesKeys) (sms : SmsHandle aes) (env : SmsEnv) {open' : OpenEnv}
    (same : open'.smsKey = env.smsKey) (inits : open'.aesInits = true) (pairs : List (Token × Text))
    (junk : Bytes smsCredsSize)
    {a : Answers} (memory : a.smsInfo.creds = junk.1) (opens : a.sslOpens = env.sslOpens) (s : BanoBase) :
    (applySmsStruct env pairs junk sms).map Prod.fst =
      (applyStruct open' ⟨literal "sms",pairs⟩ a s).map Prod.fst := by
  have others : isWord (literal "sms") "base" = false ∧ isWord (literal "sms") "socket" = false ∧
      isWord (literal "sms") "node" = false ∧ isWord (literal "sms") "http_server" = false ∧
        isWord (literal "sms") "cam" = false ∧
      isWord (literal "sms") "sms" = true := by decide
  simp only [applyStruct,others,memory,opens,Bool.false_eq_true,if_false,if_true]
  rcases applySmsPairs_info pairs junk with ⟨_,fails⟩ | ⟨_,info,read,_,_,size⟩
  · simp [applySmsStruct,onPairs,fails]
  · have session := banoSmsOpen_session takes sms env same inits info size s.sms s.devices
    cases handle : sms.banoSmsOpen env info with
    | none =>
      rw [handle] at session
      have stuck := Option.map_eq_none_iff.mp session.symm
      simp [applySmsStruct,onPairs,read,BanoBase.openSms,handle,stuck]
    | some result =>
      rw [handle] at session
      obtain ⟨result',opened,err⟩ := Option.map_eq_some_iff.mp session.symm
      by_cases fine : result.1 = 0
      · simp [applySmsStruct,onPairs,read,BanoBase.openSms,handle,opened,err,fine]
      · simp [applySmsStruct,onPairs,read,BanoBase.openSms,handle,opened,err,fine]

theorem secretAes_takes : secretAes.TakesKeys := fun buf => by
  show (arrayOf 32 buf.1).isSome
  rw [arrayOf,dif_pos buf.2]
  rfl

def addressPairs : List (Token × Text) :=
  [(literal "https_addr",⟨literal "212.27.40.200",[10]⟩),(literal "https_port",⟨literal "443",[10]⟩)]

theorem opensSafely_iff_address : OpensSafely (applySmsStruct secretEnv addressPairs (.zeros _) clearMemory.sms) := by
  have addr : lastGiven SmsSetting.addr? addressPairs = some (literal "212.27.40.200") := by decide
  have port : lastGiven SmsSetting.port? addressPairs = some (literal "443") := by decide
  refine (opensSafely_iff secretAes_takes _ _ _ _).mpr (.inr (.inr fun key given => ⟨?_,fun a given => ?_⟩))
  · obtain rfl := Option.some.inj given
    decide
  · obtain rfl := Option.some.inj (addr.symm.trans given)
    rw [port]
    exact ⟨nofun,by decide⟩

def emptyKeyEnv : SmsEnv := ⟨true,some [],fun _ => 0,fun _ => 0⟩

/-- An empty BANO_SMS_KEY. -/
theorem opensSafely_empty : ¬∀ (aes : Aes), aes.TakesKeys → ∀ env pairs junk (sms : SmsHandle aes),
    OpensSafely (applySmsStruct env pairs junk sms) := by
  intro all
  obtain ⟨err,sms,result,_⟩ := all secretAes secretAes_takes emptyKeyEnv [] (.zeros _) clearMemory.sms
  have serves : emptyKeyEnv.Serves [] := ⟨rfl,rfl⟩
  simp [applySmsStruct,banoParserForeachPair,clearMemory.sms.banoSmsOpen_empty serves] at result

end Bano
