import Bano.Sms

/-! The way of the credentials from util/sms_creds through a configuration to
bano_sms_open. The password lies across the two blocks of the cipher. -/
namespace Bano

open Lib

variable {login pass : List UInt8}

/-- Writing at the end of what is known of an array. -/
theorem Bytes.put_front {a : Bytes n} (front values : List UInt8) (known : a.1 = front ++ rest)
    (room : values.length ≤ rest.length) :
    ∃ b, a.put front.length values = some b ∧ b.1 = front ++ values ++ rest.drop values.length := by
  have stored : store a.1 front.length values = some (front ++ values ++ rest.drop values.length) := by
    have parts := store_parts front (rest.take values.length) (rest.drop values.length) (y := values) (by simp [room])
    rwa [List.append_assoc front,List.take_append_drop,← known] at parts
  unfold Bytes.put
  split
  · next none => exact nomatch none.symm.trans stored
  · next s some' => exact ⟨_,rfl,Option.some.inj (some'.symm.trans stored)⟩

/-- The text and the NUL fill the array. -/
theorem Bytes.put_text (a : Bytes (n + 1)) (text : List UInt8) (whole : text.length = n) :
    (∃ b, a.put 0 (text ++ [0]) = some b ∧ b.1 = text ++ [0]) ∧
    ∃ b c, a.put 0 text = some b ∧ b.put n [0] = some c ∧ c.1 = text ++ [0] := by
  have size : (text ++ [0]).length = a.1.length := by
    rw [a.2,List.length_append,whole]
    rfl
  have shorter : text.length ≤ a.1.length := by
    rw [← size,List.length_append]
    exact Nat.le_add_right _ _
  have left : (a.1.drop text.length).length = 1 := by
    rw [List.length_drop,← size,List.length_append]
    exact Nat.add_sub_cancel_left _ _
  obtain ⟨b,put,known⟩ := Bytes.put_front [] (text ++ [0]) (List.nil_append a.1).symm (Nat.le_of_eq size)
  obtain ⟨b',put',known'⟩ := Bytes.put_front [] text (List.nil_append a.1).symm shorter
  obtain ⟨c,last,knownC⟩ := Bytes.put_front text [0] known' (Nat.le_of_eq left.symm)
  refine ⟨⟨b,put,?_⟩,b',c,put',whole ▸ last,?_⟩
  · rw [known,List.drop_of_length_le (Nat.le_of_eq size.symm),List.append_nil,List.nil_append]
  · rw [knownC,List.drop_of_length_le (by rw [left]; exact Nat.le_refl 1),List.append_nil]

/-- The layout of the credentials before they are ciphered. -/
def plainCreds (login pass : List UInt8) : List UInt8 :=
  login ++ pass ++ List.replicate (smsCredsSize - (smsLoginSize + smsPassSize)) 0

/-- Both blocks are those of the plain credentials, ciphered under the key. -/
structure Ciphers (aes : Aes) (key : aes.Key) (plain : Bytes smsCredsSize) (creds : Bytes smsCredsSize) : Prop where
  first : firstBlock creds = aes.block key (firstBlock plain)
  second : secondBlock creds = aes.block key (secondBlock plain)

theorem load_text (text more : List α) (whole : text.length = n) : load (text ++ more) 0 n = some text := by
  have read := load_parts [] text more
  rwa [List.nil_append,List.length_nil,whole] at read

/-- The three fields one after the other fill the array. -/
theorem put_fields (x : Bytes smsCredsSize) {plain : Bytes smsCredsSize} (layout : plain.1 = plainCreds login pass)
    (lengthL : login.length = smsLoginSize) (lengthP : pass.length = smsPassSize) : ∃ a b, x.put 0 login = some a ∧
      a.put smsLoginSize pass = some b ∧ b.put (smsLoginSize + smsPassSize)
        (List.replicate (smsCredsSize - (smsLoginSize + smsPassSize)) 0) = some plain := by
  have size := x.2
  have split : (login ++ pass).length = smsLoginSize + smsPassSize := by rw [List.length_append,lengthL,lengthP]
  obtain ⟨a,putA,knownA⟩ := Bytes.put_front [] login (List.nil_append x.1).symm (by rw [size,lengthL]; decide)
  obtain ⟨b,putB,knownB⟩ := Bytes.put_front login pass knownA (by rw [List.length_drop,size,lengthL,lengthP]; decide)
  obtain ⟨c,putC,knownC⟩ :=
      Bytes.put_front (login ++ pass) (List.replicate (smsCredsSize - (smsLoginSize + smsPassSize)) 0) knownB (by
    rw [List.length_drop,List.length_drop,size,lengthL,lengthP]
    decide)
  obtain rfl : c = plain := by
    apply Subtype.ext
    rw [knownC,layout,List.drop_of_length_le (by simp [size,lengthL,lengthP]),List.append_nil]
    rfl
  rw [lengthL] at putB
  rw [split] at putC
  exact ⟨a,b,putA,putB,putC⟩

/-- The second block is ciphered after the first has been replaced. -/
theorem put_blocks (cipher : Bytes 16 → Bytes 16) (x : Bytes smsCredsSize) :
    ∃ a b, x.put 0 (cipher (firstBlock x)).1 = some a ∧
    a.put 16 (cipher (secondBlock a)).1 = some b ∧ firstBlock b = cipher (firstBlock x) ∧
    secondBlock b = cipher (secondBlock x) := by
  have size := x.2
  have size₁ := (cipher (firstBlock x)).2
  have size₂ := (cipher (secondBlock x)).2
  obtain ⟨a,putA,knownA⟩ := Bytes.put_front [] (cipher (firstBlock x)).1 (List.nil_append x.1).symm
    (by rw [size,size₁]; decide)
  rw [size₁,List.nil_append] at knownA
  have untouched : secondBlock a = secondBlock x := by
    apply Subtype.ext
    show a.1.drop 16 = x.1.drop 16
    rw [knownA]
    exact List.drop_left' size₁
  obtain ⟨b,putB,knownB⟩ := Bytes.put_front (cipher (firstBlock x)).1 (cipher (secondBlock x)).1 knownA
    (by rw [List.length_drop,size,size₂]; decide)
  rw [size₂,List.drop_of_length_le (by rw [List.length_drop,size]; decide),List.append_nil] at knownB
  rw [size₁,← untouched] at putB
  refine ⟨a,b,putA,putB,Subtype.ext ?_,Subtype.ext ?_⟩
  · show b.1.take 16 = _
    rw [knownB]
    exact List.take_left' size₁
  · show b.1.drop 16 = _
    rw [knownB]
    exact List.drop_left' size₁

namespace SmsHandle

variable {aes : Aes} {plain creds : Bytes smsCredsSize}

theorem banoSmsEncryptCreds_ciphers (sms : SmsHandle aes) (x : Bytes smsCredsSize)
    (layout : plain.1 = plainCreds login pass)
    (lengthL : login.length = smsLoginSize) (lengthP : pass.length = smsPassSize) (moreL moreP : List UInt8) :
    ∃ creds, sms.banoSmsEncryptCreds x (login ++ moreL) (pass ++ moreP) = some creds ∧
      Ciphers aes sms.aesKey plain creds := by
  obtain ⟨a,b,putL,putP,putZeros⟩ := put_fields x layout lengthL lengthP
  obtain ⟨c,creds,put₁,put₂,first,second⟩ := put_blocks (aes.block sms.aesKey) plain
  refine ⟨creds,?_,first,second⟩
  simp only [banoSmsEncryptCreds,load_text login moreL lengthL,load_text pass moreP lengthP,
    Option.bind_eq_bind,Option.bind_some,
    putL,putP,putZeros,put₁,put₂]

/-- Under the same key schedule, whatever follows the password. -/
theorem banoSmsDecryptCreds_plain (sms : SmsHandle aes) (layout : plain.1 = login ++ pass ++ rest)
    (lengthL : login.length = smsLoginSize) (lengthP : pass.length = smsPassSize)
    (ciphers : Ciphers aes sms.aesKey plain creds)
    (l : Bytes (smsLoginSize + 1)) (p : Bytes (smsPassSize + 1)) :
    ∃ l' p', sms.banoSmsDecryptCreds l p creds = some (l',p') ∧ l'.1 = login ++ [0] ∧ p'.1 = pass ++ [0] := by
  have joined : ((aes.block sms.aesKey).symm (firstBlock creds)).1 ++
    ((aes.block sms.aesKey).symm (secondBlock creds)).1 =
      login ++ pass ++ rest := by
    rw [ciphers.first,ciphers.second,Equiv.symm_apply_apply,Equiv.symm_apply_apply]
    exact (List.take_append_drop 16 plain.1).trans layout
  have readL : load (login ++ pass ++ rest) 0 smsLoginSize = some login := by
    rw [List.append_assoc]
    exact load_text login _ lengthL
  have readP : load (login ++ pass ++ rest) smsLoginSize smsPassSize = some pass := by
    rw [← lengthL,← lengthP]
    exact load_parts login pass _
  obtain ⟨a,l',putL,endL,knownL⟩ := (l.put_text login lengthL).2
  obtain ⟨b,p',putP,endP,knownP⟩ := (p.put_text pass lengthP).2
  refine ⟨l',p',?_,knownL,knownP⟩
  simp only [banoSmsDecryptCreds,joined,readL,readP,putL,endL,putP,endP,Option.bind_eq_bind,Option.bind_some]

end SmsHandle

/-- Any credentials are those of some plain ones. -/
theorem ciphers_of_creds (aes : Aes) (key : aes.Key) (creds : Bytes smsCredsSize) :
    ∃ login pass rest, ∃ plain : Bytes smsCredsSize,
    plain.1 = login ++ pass ++ rest ∧ login.length = smsLoginSize ∧ pass.length = smsPassSize ∧
    Ciphers aes key plain creds := by
  have size₁ := ((aes.block key).symm (firstBlock creds)).2
  have size₂ := ((aes.block key).symm (secondBlock creds)).2
  let plain : Bytes smsCredsSize := ⟨((aes.block key).symm (firstBlock creds)).1 ++
      ((aes.block key).symm (secondBlock creds)).1,by
    rw [List.length_append,size₁,size₂]
    rfl⟩
  have size := plain.2
  refine ⟨plain.1.take smsLoginSize,(plain.1.drop smsLoginSize).take smsPassSize,
    (plain.1.drop smsLoginSize).drop smsPassSize,plain,
    ?_,?_,?_,?_,?_⟩
  · rw [List.append_assoc,List.take_append_drop,List.take_append_drop]
  · rw [List.length_take,size]
    rfl
  · rw [List.length_take,List.length_drop,size]
    rfl
  · have first : firstBlock plain = (aes.block key).symm (firstBlock creds) := Subtype.ext (List.take_left' size₁)
    rw [first,Equiv.apply_symm_apply]
  · have second : secondBlock plain = (aes.block key).symm (secondBlock creds) := Subtype.ext (List.drop_left' size₁)
    rw [second,Equiv.apply_symm_apply]

/-- An address comes with a port, and fits its array with the NUL. -/
def BanoSmsInfo.AddressFits (info : BanoSmsInfo) : Prop :=
  ∀ addr, info.addr = some addr → info.port.isSome ∧ addr.length < smsAddrSize

theorem Bytes.put_iff (a : Bytes n) (off : Nat) (values : List UInt8) : (a.put off values).isSome ↔
    off + values.length ≤ n := by
  have size := a.2
  unfold Bytes.put
  split
  · next none =>
    apply iff_of_false (by simp)
    intro room
    rw [store_eq (by rwa [size])] at none
    exact nomatch none
  · next s stored => exact iff_of_true rfl (size ▸ store_room stored)

theorem stretchKey_iff (k : List UInt8) : (stretchKey k).isSome ↔ k ≠ [] := by
  cases k <;> simp [stretchKey]

namespace SmsHandle

variable {aes : Aes} {env : SmsEnv} {info : BanoSmsInfo} {rest : List UInt8}

theorem setAddress_iff (sms : SmsHandle aes) : (sms.setAddress env info).isSome ↔ info.AddressFits := by
  unfold setAddress BanoSmsInfo.AddressFits
  cases given : info.addr with
  | none => simp
  | some addr =>
    have room := sms.addrString.put_iff 0 (addr ++ [0])
    rw [List.length_append,Nat.zero_add,List.length_singleton] at room
    cases port : info.port with
    | none => simp
    | some p =>
      have fits : (∀ a, some addr = some a → (some p).isSome ∧ a.length < smsAddrSize) ↔
          addr.length + 1 ≤ smsAddrSize := by
        constructor
        · intro all
          exact (all addr rfl).2
        · intro room a same
          obtain rfl := Option.some.inj same
          exact ⟨rfl,room⟩
      rw [fits,← room]
      cases put : sms.addrString.put 0 (addr ++ [0]) <;> simp [put]

/-- The address leaves the rest of the handle alone. -/
theorem setAddress_keeps {sms sms' : SmsHandle aes} (set : sms.setAddress env info = some sms') :
    sms'.aesKey = sms.aesKey ∧ sms'.login = sms.login ∧ sms'.pass = sms.pass := by
  unfold setAddress at set
  split at set
  · obtain rfl := Option.some.inj set
    exact ⟨rfl,rfl,rfl⟩
  · obtain ⟨_,_,set⟩ := Option.bind_eq_some_iff.mp set
    obtain ⟨_,_,set⟩ := Option.bind_eq_some_iff.mp set
    obtain rfl := Option.some.inj set
    exact ⟨rfl,rfl,rfl⟩

/-- What bano_sms_open does with a key that is there, up to the address. -/
theorem banoSmsOpen_creds (sms : SmsHandle aes) (info : BanoSmsInfo) (opens : env.sslOpens = true)
    (given : env.smsKey = some key)
    (stretched : stretchKey key = some buf) (inits : aes.initKey buf.1 = some k) {creds : Bytes smsCredsSize}
    (own : info.creds = creds.1) {plain : Bytes smsCredsSize} (layout : plain.1 = login ++ pass ++ rest)
    (lengthL : login.length = smsLoginSize) (lengthP : pass.length = smsPassSize)
    (ciphers : Ciphers aes k plain creds) :
    ∃ l p, sms.banoSmsOpen env info =
        (({ sms with aesKey := k, login := l, pass := p } : SmsHandle aes).setAddress env info).map (fun s => (0,s)) ∧
      l.1 = login ++ [0] ∧ p.1 = pass ++ [0] := by
  obtain ⟨l,p,decrypted,knownL,knownP⟩ :=
    ({ sms with aesKey := k } : SmsHandle aes).banoSmsDecryptCreds_plain layout lengthL lengthP
    ciphers sms.login sms.pass
  refine ⟨l,p,?_,knownL,knownP⟩
  have array : arrayOf smsCredsSize info.creds = some creds := by
    rw [own]
    exact dif_pos creds.2
  simp only [banoSmsOpen,opens,given,stretched,inits,array,decrypted,Option.bind_eq_bind,Option.bind_some]
  rw [if_neg (by decide)]
  cases SmsHandle.setAddress _ env info <;> rfl

end SmsHandle

/-- The library is there, and the key. -/
structure SmsEnv.Serves (env : SmsEnv) (key : List UInt8) : Prop where
  opens : env.sslOpens = true
  given : env.smsKey = some key

structure KeyOpens (aes : Aes) (env : SmsEnv) (key : List UInt8) (k : aes.Key) : Prop extends env.Serves key where
  inits : ∃ buf, stretchKey key = some buf ∧ aes.initKey buf.1 = some k

/-- The tool prints the credentials that it has ciphered. -/
theorem smsCreds_prints {aes : Aes} {env : SmsEnv} {k : aes.Key} (opens : KeyOpens aes env key k)
    (m : SmsCredsMemory aes)
    (tool : List UInt8) (lengthL : login.length = smsLoginSize) (lengthP : pass.length = smsPassSize)
    {plain : Bytes smsCredsSize}
    (layout : plain.1 = plainCreds login pass) : ∃ creds : Bytes smsCredsSize,
      smsCreds env m [tool,literal "-e",login,pass] = some (0,printCreds creds.1) ∧ Ciphers aes k plain creds := by
  obtain ⟨buf,stretched,inits⟩ := opens.inits
  obtain ⟨_,_,_,_,layout',lengthL',lengthP',ciphers'⟩ := ciphers_of_creds aes k m.infoCreds
  obtain ⟨l₀,p₀,opened,_,_⟩ := m.sms.banoSmsOpen_creds ⟨none,none,m.infoCreds.1⟩ opens.opens opens.given
    stretched inits rfl layout'
    lengthL' lengthP' ciphers'
  obtain ⟨l,putL,knownL⟩ := (m.l.put_text login lengthL).1
  obtain ⟨p,putP,knownP⟩ := (m.p.put_text pass lengthP).1
  obtain ⟨creds,encrypted,ciphers⟩ :=
    ({ m.sms with aesKey := k, login := l₀, pass := p₀ } : SmsHandle aes).banoSmsEncryptCreds_ciphers
    m.creds layout lengthL lengthP [0] [0]
  refine ⟨creds,?_,ciphers⟩
  rw [SmsHandle.setAddress,Option.map_some] at opened
  have modes : literal "-e" ≠ literal "-d" := by decide
  simp only [smsCreds,opened,Option.bind_eq_bind,Option.bind_some,List.getElem?_cons_succ,List.getElem?_cons_zero,
    if_neg modes,lengthL,
    lengthP,putL,putP,knownL,knownP,encrypted]
  rfl

/-- psAesInitKey takes keys of 32 bytes. -/
def Aes.TakesKeys (aes : Aes) : Prop := ∀ buf : Bytes 32, (aes.initKey buf.1).isSome

/-- What the tool prints is a token and a newline, and the base reads the login and the password from it. -/
theorem creds_round_trip (aes : Aes) (takes : aes.TakesKeys) (nonempty : key ≠ []) {tool base : SmsEnv}
    (toolServes : tool.Serves key) (baseServes : base.Serves key) (lengthL : login.length = smsLoginSize)
    (lengthP : pass.length = smsPassSize) (m : SmsCredsMemory aes) (name : List UInt8) : ∃ text,
      smsCreds tool m [name,literal "-e",login,pass] = some (0,text ++ [10]) ∧
      ∀ after, (∃ c ∈ after.head?, isWhite c) → ∃ creds,
        banoStringToArray ⟨text,after⟩ smsCredsSize = some creds ∧
        ∀ (sms : SmsHandle aes) (info : BanoSmsInfo), info.creds = creds →
          (info.AddressFits → ∃ sms', sms.banoSmsOpen base info = some (0,sms')) ∧
          ∀ err sms', sms.banoSmsOpen base info = some (err,sms') →
            err = 0 ∧ sms'.login.1 = login ++ [0] ∧ sms'.pass.1 = pass ++ [0] := by
  obtain ⟨buf,stretched⟩ := Option.isSome_iff_exists.mp ((stretchKey_iff key).mpr nonempty)
  obtain ⟨k,inits⟩ := Option.isSome_iff_exists.mp (takes buf)
  obtain ⟨plain,layout⟩ : ∃ plain : Bytes smsCredsSize, plain.1 = plainCreds login pass :=
    ⟨⟨plainCreds login pass,by simp [plainCreds,lengthL,lengthP,smsCredsSize,smsLoginSize,smsPassSize]⟩,rfl⟩
  obtain ⟨creds,printed,ciphers⟩ := smsCreds_prints ⟨toolServes,buf,stretched,inits⟩ m name lengthL lengthP layout
  have whole := creds.2
  obtain ⟨text,listed,shown⟩ := printCreds_from 0 (List.length_pos_iff.mp (by rw [whole]; decide))
    (by rw [whole,Nat.zero_add])
  refine ⟨text,printed.trans (congrArg (fun s => some (0,s)) shown),
    fun after white => ⟨creds.1,?_,fun sms info own => ?_⟩⟩
  · obtain ⟨c,head,isWhite⟩ := white
    have stop : ∀ c ∈ after.head?, 16 ≤ digitVal c := by
      intro c' head'
      obtain rfl := Option.some.inj (head.symm.trans head')
      exact white_stops isWhite
    have read := banoStringToArray_text listed stop
    rwa [whole] at read
  · obtain ⟨l,p,opened,knownL,knownP⟩ :=
      sms.banoSmsOpen_creds info baseServes.opens baseServes.given stretched inits own layout
      lengthL lengthP ciphers
    constructor
    · intro fits
      obtain ⟨sms',set⟩ := Option.isSome_iff_exists.mp ((SmsHandle.setAddress_iff _).mpr fits)
      exact ⟨sms',by rw [opened,set]; rfl⟩
    · intro err sms' result
      rw [opened] at result
      obtain ⟨_,set,same⟩ := Option.map_eq_some_iff.mp result
      obtain ⟨rfl,rfl⟩ := Prod.mk.inj same
      obtain ⟨_,sameL,sameP⟩ := SmsHandle.setAddress_keeps set
      exact ⟨rfl,(congrArg Subtype.val sameL).trans knownL,(congrArg Subtype.val sameP).trans knownP⟩

/-- What AES makes of two blocks under the key "secret". -/
def secretAes : Aes where
  Key := Bytes 32
  initKey := arrayOf 32
  block _ :=
    (Equiv.swap ⟨[49,50,51,52,53,54,55,56,97,98,99,100,101,102,103,104],rfl⟩
      ⟨[64,228,175,50,68,12,180,216,59,136,255,89,133,251,80,181],rfl⟩).trans
    (Equiv.swap ⟨[105,106,107,108,109,110,0,0,0,0,0,0,0,0,0,0],rfl⟩
      ⟨[103,150,1,202,200,228,43,123,16,96,5,192,15,15,181,137],rfl⟩)

def Bytes.zeros (n : Nat) : Bytes n := ⟨List.replicate n 0,List.length_replicate⟩

def clearMemory : SmsCredsMemory secretAes :=
  ⟨⟨.zeros _,.zeros _,.zeros _,0,0,.zeros _⟩,.zeros _,.zeros _,.zeros _,.zeros _⟩

def secretEnv : SmsEnv := ⟨true,some (literal "secret"),fun _ => 0,fun _ => 0⟩

theorem creds_round_trip_secret : ∃ text creds sms',
    smsCreds secretEnv clearMemory [literal "sms_creds",literal "-e",literal "12345678",literal "abcdefghijklmn"] =
      some (0,text ++ [10]) ∧
    banoStringToArray ⟨text,[10]⟩ smsCredsSize = some creds ∧
    clearMemory.sms.banoSmsOpen secretEnv ⟨none,none,creds⟩ = some (0,sms') ∧
    sms'.login.1 = literal "12345678" ++ [0] ∧ sms'.pass.1 = literal "abcdefghijklmn" ++ [0] := by
  have takes : secretAes.TakesKeys := fun buf => by
    show (arrayOf 32 buf.1).isSome
    rw [arrayOf,dif_pos buf.2]
    rfl
  have serves : secretEnv.Serves (literal "secret") := ⟨rfl,rfl⟩
  obtain ⟨text,printed,read⟩ := creds_round_trip secretAes takes (by decide : literal "secret" ≠ []) serves serves
    (by decide : (literal "12345678").length = smsLoginSize)
      (by decide : (literal "abcdefghijklmn").length = smsPassSize)
    clearMemory (literal "sms_creds")
  obtain ⟨creds,decoded,opens⟩ := read [10] ⟨10,rfl,by decide⟩
  obtain ⟨succeeds,result⟩ := opens clearMemory.sms ⟨none,none,creds⟩ rfl
  obtain ⟨sms',opened⟩ := succeeds nofun
  exact ⟨text,creds,sms',printed,decoded,opened,(result 0 sms' opened).2⟩

end Bano
