import Bano.Scanning

/-! What parse_pair and parse_struct return and record, also when they fail: strings
inside of the buffer they are called on, and what the list model reads. -/
namespace Bano.SizeT

open Lib

/-- The string lies in s[0..n). -/
def BanoString.InSlice (str : BanoString) (buf : Ptr) (s n : Size) : Prop :=
  ∃ off : Size, str.data = some (buf,s + off) ∧ off.toNat + str.size.toNat ≤ n.toNat

/-- The string is as it was, or lies in s[0..n). -/
def BanoString.Recorded (buf : Ptr) (s n : Size) (old new : BanoString) : Prop := new = old ∨ new.InSlice buf s n

structure ParserPair.Recorded (buf : Ptr) (s n : Size) (old new : ParserPair) : Prop where
  key : BanoString.Recorded buf s n old.key new.key
  val : BanoString.Recorded buf s n old.val new.val

/-- The strings of the list model, as they are stored. -/
def stored (str : Bano.BanoString) : BanoString := ⟨some (str.buf,size str.data),size str.size⟩

def storedPair (pair : Bano.ParserPair) : ParserPair := ⟨stored pair.key,stored pair.val⟩

def storedStruct (strukt : Bano.ParserStruct) : ParserStruct := ⟨stored strukt.name,strukt.pairs.map storedPair⟩

/-- A call returns the size that the list model gives, or fails as it does or for want of memory. -/
def Gives (refused : Prop) (ret : Size) (same : β → Prop) : Option (Nat × β) → Prop
  | none => ret = failed
  | some (k,b) => ret = size k ∧ same b ∨ ret = failed ∧ refused

section reading

variable {region : Region} {s : Size} {data : List UInt8}

theorem inSlice_widen {str : BanoString} (inside : str.InSlice buf (s + size k) (size data.length - size k))
    (fits : data.length < 2 ^ 64) (within : k ≤ data.length) : str.InSlice buf s (size data.length) := by
  obtain ⟨off,at',bound⟩ := inside
  rw [size_sub fits within,size_toNat (by omega)] at bound
  refine ⟨size k + off,by rw [at',BitVec.add_assoc],?_⟩
  rw [size_toNat fits,BitVec.toNat_add,size_toNat (by omega),Nat.mod_eq_of_lt (by omega)]
  omega

/-- next_token on what follows `k`; the token is a string of the buffer. -/
structure TokenRead (region : Region) (s : Size) (data : List UInt8) (k o z : Nat) : Prop where
  bound : k + o + z ≤ data.length
  found : nextToken region (s + size k) (size data.length - size k) = .done (size o,size z)
  zero : size z = 0 ↔ z = 0
  one : size z = 1 ↔ z = 1
  string : ∀ buf, (BanoString.mk (some (buf,s + size (k + o))) (size z)).InSlice buf s (size data.length)

theorem Holds.tokenRead (holds : Holds region s data) (within : k ≤ data.length)
    (token : Bano.nextToken (data.drop k) = (o,z)) :
    TokenRead region s data k o z := by
  have bound := token_drop within
  have found := nextToken_at holds within
  have fits := holds.fits
  rw [token] at bound found
  refine ⟨bound,found,size_eq_zero (by omega),size_eq_one (by omega),fun buf => ⟨size (k + o),rfl,?_⟩⟩
  rw [size_toNat fits,size_toNat (by omega),size_toNat (by omega)]
  exact bound

theorem Holds.firstToken (holds : Holds region s data) (token : Bano.nextToken data = (o,z)) :
    TokenRead region s data 0 o z ∧ nextToken region s (size data.length) = .done (size o,size z) ∧
    o + z ≤ data.length ∧ ∀ buf, (BanoString.mk (some (buf,s + size o)) (size z)).InSlice buf s
      (size data.length) := by
  have read := holds.tokenRead (Nat.zero_le _) token
  have bound := read.bound
  have string := read.string
  rw [Nat.zero_add] at bound string
  exact ⟨read,by rw [nextToken_size holds,token],bound,string⟩

theorem parsePair_spec (holds : Holds region s data) (place : size start = s) (buf : Ptr)
    (pair : ParserPair) : ∃ ret pair',
    parsePair region buf pair s (size data.length) = .done (ret,pair') ∧
    ParserPair.Recorded buf s (size data.length) pair pair' ∧
    Gives False ret (fun p => pair' = storedPair p) (Bano.parsePair buf start data) := by
  obtain ⟨o₁,z₁,token₁⟩ : ∃ o z, Bano.nextToken data = (o,z) := ⟨_,_,rfl⟩
  obtain ⟨key,first,keyEnd,inside⟩ := holds.firstToken token₁
  have keyString := inside buf
  by_cases noKey : z₁ = 0
  · refine ⟨failed,pair,?_,⟨.inl rfl,.inl rfl⟩,?_⟩
    · simp only [parsePair,first,Outcome.bind_done,if_pos (key.zero.mpr noKey)]
    · simp [Bano.parsePair,token₁,noKey,Gives]
  have hasKey := mt key.zero.mp noKey
  obtain ⟨o₂,z₂,token₂⟩ : ∃ o z, Bano.nextToken (data.drop (o₁ + z₁)) = (o,z) := ⟨_,_,rfl⟩
  have equal := holds.tokenRead keyEnd token₂
  by_cases noEqual : z₂ = 0
  · refine ⟨failed,{ pair with key := _ },?_,⟨.inr keyString,.inl rfl⟩,?_⟩
    · simp only [parsePair,first,Outcome.bind_done,if_neg hasKey,size_add,equal.found,if_pos (equal.zero.mpr noEqual)]
    · simp [Bano.parsePair,token₁,noKey,token₂,noEqual,Gives]
  have hasEqual := mt equal.zero.mp noEqual
  obtain ⟨o₃,z₃,token₃⟩ : ∃ o z, Bano.nextToken (data.drop (o₁ + z₁ + o₂ + z₂)) = (o,z) := ⟨_,_,rfl⟩
  have val := holds.tokenRead equal.bound token₃
  by_cases noVal : z₃ = 0
  · refine ⟨failed,{ pair with key := _ },?_,⟨.inr keyString,.inl rfl⟩,?_⟩
    · simp only [parsePair,first,Outcome.bind_done,if_neg hasKey,size_add,equal.found,if_neg hasEqual,← Nat.add_assoc,
        val.found,if_pos (val.zero.mpr noVal)]
    · simp [Bano.parsePair,token₁,noKey,token₂,noEqual,token₃,noVal,Gives]
  have hasVal := mt val.zero.mp noVal
  refine ⟨size (o₁ + z₁ + o₂ + z₂ + o₃ + z₃),⟨_,_⟩,?_,⟨.inr keyString,.inr (val.string buf)⟩,?_⟩
  · simp only [parsePair,first,Outcome.bind_done,if_neg hasKey,size_add,equal.found,if_neg hasEqual,← Nat.add_assoc,
      val.found,if_neg hasVal]
  · have listed : Bano.parsePair buf start data = some (o₁ + z₁ + o₂ + z₂ + o₃ + z₃,
        ⟨⟨buf,start + o₁,z₁⟩,⟨buf,start + (o₁ + z₁ + o₂ + z₂) + o₃,z₃⟩⟩) := by
      simp [Bano.parsePair,token₁,noKey,token₂,noEqual,token₃,noVal]
    rw [listed]
    refine .inl ⟨rfl,?_⟩
    simp only [storedPair,stored,Nat.add_assoc,size_place place]

theorem recorded_widen {old new : ParserPair}
    (recorded : ParserPair.Recorded buf (s + size k) (size data.length - size k) old new)
    (fits : data.length < 2 ^ 64) (within : k ≤ data.length) : ParserPair.Recorded buf s (size data.length) old new :=
  ⟨recorded.key.imp id fun inside => inSlice_widen inside fits within,
    recorded.val.imp id fun inside => inSlice_widen inside fits within⟩

theorem parsePair_at (holds : Holds region s data) (place : size start = s) (within : k ≤ data.length) (buf : Ptr)
    (pair : ParserPair) : ∃ ret pair',
    parsePair region buf pair (s + size k) (size data.length - size k) = .done (ret,pair') ∧
    ParserPair.Recorded buf s (size data.length) pair pair' ∧
    Gives False ret (fun p => pair' = storedPair p) (Bano.parsePair buf (start + k) (data.drop k)) := by
  obtain ⟨ret,pair',parsed,recorded,gives⟩ := parsePair_spec (holds.drop k) (size_place place k) buf pair
  rw [← holds.rest within] at parsed recorded
  exact ⟨ret,pair',parsed,recorded_widen recorded holds.fits within,gives⟩

/-- Some allocation is refused. -/
def Allocs.Refuses (allocs : Allocs) : Prop := ∃ i, allocs.grants i = false

@[simp] theorem askTwice_grants (allocs : Allocs) : allocs.askTwice.2.grants = allocs.grants := by
  unfold Allocs.askTwice Allocs.ask
  cases allocs.grants allocs.asked <;> rfl

theorem gives_refused {same : β → Prop} (refused : p) : Gives p failed same r := by
  cases r with
  | none => rfl
  | some r => exact .inr ⟨rfl,refused⟩

theorem size_ne_failed (fits : a < 2 ^ 64 - 1) : size a ≠ failed := by
  intro same
  have number := congrArg BitVec.toNat same
  rw [size_toNat (by omega)] at number
  have last : failed.toNat = 2 ^ 64 - 1 := by decide
  omega

theorem askTwice_refused {allocs : Allocs} (refused : allocs.askTwice.1 = false) : allocs.Refuses := by
  unfold Allocs.askTwice Allocs.ask at refused
  cases first : allocs.grants allocs.asked with
  | false => exact ⟨_,first⟩
  | true =>
    rw [first] at refused
    exact ⟨_,refused⟩

/-- What the loop of parse_struct returns, `base` being the pairs that the struct had. -/
structure PairsRead (s : Size) (data : List UInt8) (buf : Ptr) (base pairs : List ParserPair) (allocs : Allocs)
    (listed : Option (Nat × List Bano.ParserPair)) (result : Size × List ParserPair × Allocs) : Prop where
  grants : result.2.2.grants = allocs.grants
  recorded : ∃ more, result.2.1 = pairs ++ more ∧ ∀ pair ∈ more,
    ParserPair.Recorded buf s (size data.length) pairInit pair
  gives : Gives allocs.Refuses result.1 (fun all => result.2.1 = base ++ all.map storedPair) listed

theorem isClosing_spec (holds : Holds region s data) (read : TokenRead region s data k o z)
    (live : data[k + o]? = some c) :
    isClosing region (s + size (k + o)) (size z) = .done (decide (z = 1 ∧ c = '}'.toUInt8)) := by
  by_cases one : z = 1
  · rw [isClosing,if_pos (read.one.mpr one),holds.read live,Outcome.bind_done]
    simp only [one,true_and]
  · rw [isClosing,if_neg (mt read.one.mp one)]
    simp only [one,false_and,decide_false]

/-- A turn that finds a token. -/
theorem pairTurn_token (holds : Holds region s data) (read : TokenRead region s data k o z) (found : z ≠ 0)
    (live : data[k + o]? = some c) (buf : Ptr) (pairs : List ParserPair) (allocs : Allocs) :
    pairTurn region buf s (size data.length) (size k,pairs,allocs) =
      if z = 1 ∧ c = '}'.toUInt8 then .done (.stop (size (o + k + 1),pairs,allocs))
      else if allocs.askTwice.1 = false then .done (.stop (failed,pairs,allocs.askTwice.2))
      else parsePair region buf pairInit (s + size k) (size data.length - size k) >>= fun r =>
        .done (if r.1 = failed then .stop (failed,pairs ++ [r.2],allocs.askTwice.2)
          else .next (size k + r.1,pairs ++ [r.2],allocs.askTwice.2)) := by
  have closing := isClosing_spec holds read live
  have differs := mt read.zero.mp found
  simp only [pairTurn,read.found,Outcome.bind_done,if_neg differs,size_add,closing]
  by_cases closes : z = 1 ∧ c = '}'.toUInt8
  · rw [if_pos closes,decide_eq_true closes,if_pos rfl]
    rw [← size_succ]
    rfl
  · rw [if_neg closes,decide_eq_false closes,if_neg Bool.false_ne_true]
    split
    · next refused => rw [refused]; rfl
    · next granted => rw [granted]; rfl

theorem pairs_loop (holds : Holds region s data) (place : size start = s) (buf : Ptr) (fuel : Nat) (pos : 0 < k)
    (within : k ≤ data.length) (enough : data.length - k < fuel) (base : List ParserPair) (ps : List Bano.ParserPair)
    (allocs : Allocs) :
    ∃ listed result, Bano.parsePairs buf start data fuel k ps = .done listed ∧
      loop (pairTurn region buf s (size data.length)) fuel (size k,base ++ ps.map storedPair,allocs) = .done result ∧
      PairsRead s data buf base (base ++ ps.map storedPair) allocs listed result := by
  induction fuel generalizing k ps allocs with
  | zero => omega
  | succ fuel ih =>
    obtain ⟨o,z,token⟩ : ∃ o z, Bano.nextToken (data.drop k) = (o,z) := ⟨_,_,rfl⟩
    have read := holds.tokenRead within token
    by_cases noToken : z = 0
    · refine ⟨none,(failed,base ++ ps.map storedPair,allocs),by simp [Bano.parsePairs,token,noToken],?_,
        rfl,⟨[],by simp⟩,rfl⟩
      apply loop_stop
      simp only [pairTurn,read.found,Outcome.bind_done,if_pos (read.zero.mpr noToken)]
    have bound := read.bound
    obtain ⟨c,live⟩ := byte_live (s := data) (i := k + o) (by omega)
    have turn := pairTurn_token holds read noToken live buf (base ++ ps.map storedPair) allocs
    by_cases closes : z = 1 ∧ c = '}'.toUInt8
    · rw [if_pos closes] at turn
      have listed :=
        parsePairs_close (s := data) (i := k) (by rwa [token]) (by rwa [token]) (by rwa [token]) buf start fuel ps
      rw [token] at listed
      exact ⟨some (o + k + 1,ps),_,listed,loop_stop turn _,rfl,⟨[],by simp⟩,.inl ⟨rfl,rfl⟩⟩
    rw [if_neg closes] at turn
    have listed :=
      parsePairs_turn (s := data) (i := k) (by rwa [token]) (by rwa [token]) (by rwa [token]) buf start fuel ps
    by_cases refused : allocs.askTwice.1 = false
    · rw [if_pos refused] at turn
      obtain ⟨_,_,ran⟩ := parsePairs_size (fuel + 1) within enough
      obtain ⟨r,returned,_⟩ := ran buf start ps
      exact ⟨r,_,returned,loop_stop turn _,askTwice_grants allocs,⟨[],by simp⟩,
        gives_refused (askTwice_refused refused)⟩
    rw [if_neg refused] at turn
    obtain ⟨ret,pair,parsed,recorded,gives⟩ := parsePair_at holds place within buf pairInit
    rw [parsed,Outcome.bind_done] at turn
    obtain ⟨size',range,same⟩ := parsePair_size (data.drop k)
    have sized := same buf (start + k)
    cases found : Bano.parsePair buf (start + k) (data.drop k) with
    | none =>
      rw [found] at gives listed
      obtain rfl : ret = failed := gives
      rw [if_pos rfl] at turn
      exact ⟨none,_,listed,loop_stop turn _,askTwice_grants allocs,⟨[pair],rfl,by simpa using recorded⟩,rfl⟩
    | some r =>
      obtain ⟨j,p⟩ := r
      rw [found] at gives listed sized
      obtain ⟨rfl,rfl⟩ : ret = size j ∧ pair = storedPair p := gives.resolve_right fun none => none.2
      obtain ⟨more,most⟩ := range j sized.symm
      rw [List.length_drop] at most
      have fits := holds.fits
      rw [if_neg (size_ne_failed (by omega)),size_add] at turn
      obtain ⟨r,result,returned,looped,grants,⟨pairs,all,each⟩,gives'⟩ :=
        ih (k := k + j) (by omega) (by omega) (by omega) (ps ++ [p]) allocs.askTwice.2
      rw [List.map_append,← List.append_assoc] at looped all
      refine ⟨r,result,listed.trans returned,(loop_next turn _).trans looped,grants.trans (askTwice_grants allocs),
        ⟨storedPair p :: pairs,by simpa using all,?_⟩,?_⟩
      · intro q member
        rcases List.mem_cons.mp member with rfl | member
        · exact recorded
        · exact each q member
      · simpa [Allocs.Refuses] using gives'

structure ParserStruct.Recorded (buf : Ptr) (s n : Size) (old new : ParserStruct) : Prop where
  name : BanoString.Recorded buf s n old.name new.name
  pairs : ∃ more, new.pairs = old.pairs ++ more ∧ ∀ pair ∈ more, ParserPair.Recorded buf s n pairInit pair

/-- What parse_struct returns. -/
structure StructRead (s : Size) (data : List UInt8) (buf : Ptr) (strukt : ParserStruct) (allocs : Allocs)
    (listed : Option (Nat × Bano.ParserStruct)) (result : Size × ParserStruct × Allocs) : Prop where
  grants : result.2.2.grants = allocs.grants
  recorded : ParserStruct.Recorded buf s (size data.length) strukt result.2.1
  gives : Gives allocs.Refuses result.1
    (fun q => result.2.1 = ⟨stored q.name,strukt.pairs ++ q.pairs.map storedPair⟩) listed

theorem parseStruct_spec (holds : Holds region s data) (place : size start = s) (buf : Ptr) (allocs : Allocs)
    (strukt : ParserStruct) : ∃ listed result, Bano.parseStruct buf start data = .done listed ∧
    parseStruct region buf allocs strukt s (size data.length) = .done result ∧
    StructRead s data buf strukt allocs listed result := by
  obtain ⟨o₁,z₁,token₁⟩ : ∃ o z, Bano.nextToken data = (o,z) := ⟨_,_,rfl⟩
  obtain ⟨name,first,nameEnd,inside⟩ := holds.firstToken token₁
  have nameString := inside buf
  have nothing : ∃ more, strukt.pairs = strukt.pairs ++ more ∧ ∀ pair ∈ more,
    ParserPair.Recorded buf s (size data.length) pairInit pair := ⟨[],by simp⟩
  by_cases noName : z₁ = 0
  · refine ⟨none,(failed,strukt,allocs),by simp [Bano.parseStruct,token₁,noName],?_,rfl,⟨.inl rfl,nothing⟩,rfl⟩
    simp only [parseStruct,first,Outcome.bind_done,if_pos (name.zero.mpr noName)]
  have hasName := mt name.zero.mp noName
  obtain ⟨o₂,z₂,token₂⟩ : ∃ o z, Bano.nextToken (data.drop (o₁ + z₁)) = (o,z) := ⟨_,_,rfl⟩
  have opening := holds.tokenRead nameEnd token₂
  by_cases one : z₂ = 1
  · have bound := opening.bound
    obtain ⟨c,live⟩ := byte_live (s := data) (i := o₁ + z₁ + o₂) (by omega)
    by_cases brace : c = '{'.toUInt8
    · obtain ⟨listed,⟨ret,pairs,allocs'⟩,read,looped,grants,recorded,gives⟩ :=
        pairs_loop holds place buf (data.length + 1)
        (k := o₁ + z₁ + o₂ + 1) (by omega) (by omega) (by omega) strukt.pairs [] allocs
      rw [List.map_nil,List.append_nil] at looped recorded
      refine ⟨listed.map fun r => (r.1,⟨⟨buf,start + o₁,z₁⟩,r.2⟩),
        (ret,⟨⟨some (buf,s + size o₁),size z₁⟩,pairs⟩,allocs'),?_,?_,
        grants,⟨.inr nameString,recorded⟩,?_⟩
      · simp [Bano.parseStruct,token₁,noName,token₂,one,live,brace,read]
      · have from' : size (o₁ + z₁) + (size o₂ + 1) = size (o₁ + z₁ + o₂ + 1) := by
          rw [← size_succ,← size_add (o₁ + z₁) o₂,BitVec.add_assoc]
          rfl
        simp only [parseStruct,first,Outcome.bind_done,if_neg hasName,size_add,opening.found,
          if_neg (not_not.mpr (opening.one.mpr one)),holds.read live,if_neg (not_not.mpr brace),ne_eq,from',
          size_toNat holds.fits,looped]
      · cases listed with
        | none => exact gives
        | some r =>
          refine gives.imp (fun given => ⟨given.1,?_⟩) id
          simp only [stored,size_place place]
          exact congrArg _ given.2
    · refine ⟨none,(failed,{ strukt with name := _ },allocs),
        by simp [Bano.parseStruct,token₁,noName,token₂,one,live,brace],?_,rfl,
        ⟨.inr nameString,nothing⟩,rfl⟩
      simp only [parseStruct,first,Outcome.bind_done,if_neg hasName,size_add,opening.found,
        if_neg (not_not.mpr (opening.one.mpr one)),holds.read live,if_pos brace,ne_eq]
  · refine ⟨none,(failed,{ strukt with name := _ },allocs),by simp [Bano.parseStruct,token₁,noName,token₂,one],?_,rfl,
      ⟨.inr nameString,nothing⟩,rfl⟩
    simp only [parseStruct,first,Outcome.bind_done,if_neg hasName,size_add,opening.found,
      if_pos (mt opening.one.mp one)]

theorem Holds.bounded (holds : Holds region s data) {same : β → Prop} (gives : Gives p ret same listed)
    (range : ∀ k b, listed = some (k,b) → k ≤ data.length) : ret = failed ∨ ret ≤ size data.length := by
  cases listed with
  | none => exact .inl gives
  | some r =>
    rcases gives with ⟨rfl,_⟩ | ⟨refused,_⟩
    · exact .inr (holds.size_le (range r.1 r.2 rfl))
    · exact .inl refused

theorem Holds.pair_bounded (holds : Holds region s data) {same : Bano.ParserPair → Prop}
    (gives : Gives p ret same (Bano.parsePair buf start data)) : ret = failed ∨ ret ≤ size data.length := by
  obtain ⟨size',range,sized⟩ := parsePair_size data
  refine holds.bounded gives fun k b found => (range k ?_).2
  rw [← sized buf start,found]
  rfl

theorem Holds.struct_bounded (holds : Holds region s data) (read : Bano.parseStruct buf start data = .done listed)
    {same : Bano.ParserStruct → Prop} (gives : Gives p ret same listed) : ret = failed ∨ ret ≤ size data.length := by
  obtain ⟨size',range,ran⟩ := parseStruct_size data
  obtain ⟨r,returned,sized⟩ := ran buf start
  obtain rfl := Outcome.done.inj (returned.symm.trans read)
  refine holds.bounded gives fun k b found => (range k ?_).2
  rw [← sized,found]
  rfl

end reading

end Bano.SizeT
