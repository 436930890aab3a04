import TriTip.AddrMan.Serialize

/-!
# The address manager: a file, and loading it

`PeersFile` is what the bytes of a file say, `PeersFile.load` what the read branch makes of it. The
read branch completes on the bytes that parse, and its result is the loaded file
(`Unserialize_parses`): the bytes, the position in the stream and the manager read into play no
further part.
-/

namespace TriTip

open Std

/-- What is in a file: the header, the entries, and the index list of every bucket. -/
structure PeersFile where
  nKey : List UInt8
  nNew : Int
  nTried : Int
  nUBuckets : Int
  news : List CAddrInfo
  trieds : List CAddrInfo
  lists : List (List Int)

namespace PeersFile

def parseInfo (c : PeersCodec) : Parser CAddrInfo := do
  let address ← c.address.read
  let source ← c.netAddr.read
  let nLastSuccess ← c.int64.read
  let nAttempts ← c.int.read
  pure { CAddrInfo.ofAddress address source with nLastSuccess, nAttempts }

def parseIndex (c : PeersCodec) : Parser Int := do
  let n ← c.int.read
  pure n.toInt

def parseList (c : PeersCodec) : Parser (List Int) := do
  let nSize ← c.int.read
  (parseIndex c).many nSize.toInt.toNat

def parse (c : PeersCodec) : Parser PeersFile := do
  let _ ← c.byte.read
  let nKey ← c.key.read
  let nNew ← c.int.read
  let nTried ← c.int.read
  let nUBuckets ← c.int.read
  let news ← (parseInfo c).many nNew.toInt.toNat
  let trieds ← (parseInfo c).many nTried.toInt.toNat
  let lists ← (parseList c).many nUBuckets.toInt.toNat
  pure { nKey, nNew := nNew.toInt, nTried := nTried.toInt, nUBuckets := nUBuckets.toInt,
         news, trieds,
         lists }

end PeersFile

namespace CAddrMan

/-! ## The loops as functions of what they read -/

/-- The entry `n` with the fields of the file. -/
def Loading.fill (s : Loading) (n : Int) (e : CAddrInfo) : CAddrInfo :=
  { s.info n with
    toCAddress := e.toCAddress
    source := e.source
    nLastSuccess := e.nLastSuccess
    nAttempts := e.nAttempts }

def loadNewEntry (H : BucketHash) (nUBuckets : Int) (n : Nat) (e : CAddrInfo) (s : Loading) :
    Loading :=
  (s.setInfo n (s.fill n e)).update (EnterNew H nUBuckets n (s.fill n e))

def loadNew (H : BucketHash) (nUBuckets : Int) : Nat → List CAddrInfo → Loading → Loading
  | _, [], s => s
  | n, e :: es, s => loadNew H nUBuckets (n + 1) es (loadNewEntry H nUBuckets n e s)

def loadTried (H : BucketHash) (es : List CAddrInfo) (s : Loading) : Loading :=
  es.foldl (fun s e => EnterTried H e s) s

def loadIndexes (nUBuckets : Int) (b : Nat) (l : List Int) (s : Loading) : Loading :=
  l.foldl (fun s k => EnterIndex nUBuckets b k s) s

def loadLists (nUBuckets : Int) : Nat → List (List Int) → Loading → Loading
  | _, [], s => s
  | b, l :: ls, s =>
    loadLists nUBuckets (b + 1) ls (loadIndexes nUBuckets b l { s with
      outOfRange := s.outOfRange || !decide (b < ADDRMAN_NEW_BUCKET_COUNT) })

theorem Loading.setInfo_setInfo (s : Loading) (n : Int) (i j : CAddrInfo) :
    (s.setInfo n i).setInfo n j = s.setInfo n j := by
  simp [Loading.setInfo, Loading.update]

@[simp] theorem Loading.info_setInfo (s : Loading) (n : Int) (i : CAddrInfo) :
    (s.setInfo n i).info n = i := by
  simp [Loading.setInfo, Loading.update, Loading.info]

/-- Reading an entry in place fills in its four fields. -/
theorem ReadInfo_parses (c : PeersCodec) (n : Int) :
    Decoder.Parses (ReadInfo c n) (PeersFile.parseInfo c) (fun e s => s.setInfo n (s.fill n e))
      fun _ => () := by
  intro s bs
  unfold ReadInfo PeersFile.parseInfo
  constructor
  · intro e rest h
    obtain ⟨a, bs, h, e₁⟩ := (Decoder.parses_readInto _ _ _).bind_succeeds h _
    rw [e₁]
    obtain ⟨src, bs, h, e₂⟩ := (Decoder.parses_readInto _ _ _).bind_succeeds h _
    rw [e₂]
    obtain ⟨suc, bs, h, e₃⟩ := (Decoder.parses_readInto _ _ _).bind_succeeds h _
    rw [e₃]
    obtain ⟨att, bs, h, e₄⟩ := (Decoder.parses_readInto _ _ _).bind_succeeds h _
    rw [e₄]
    obtain ⟨rfl, rfl⟩ := Prod.mk.inj (Option.some.inj h)
    simp only [Loading.setInfo_setInfo, Loading.info_setInfo, Decoder.pure_apply, Loading.fill,
      CAddrInfo.ofAddress]
  · intro h
    refine (Decoder.parses_readInto _ _ _).bind_fails h fun a bs h => ?_
    refine (Decoder.parses_readInto _ _ _).bind_fails h fun src bs h => ?_
    refine (Decoder.parses_readInto _ _ _).bind_fails h fun suc bs h => ?_
    refine (Decoder.parses_readInto _ _ _).bind_fails h fun att bs h => ?_
    cases h

theorem ReadLocalInfo_parses (c : PeersCodec) :
    Decoder.Parses (ReadLocalInfo c) (PeersFile.parseInfo c) (fun _ s => s)
      fun e => e := by
  intro s bs
  unfold ReadLocalInfo PeersFile.parseInfo
  constructor
  · intro e rest h
    obtain ⟨a, bs, h, e₁⟩ := (Decoder.parses_readLocal _).bind_succeeds h _
    rw [e₁]
    obtain ⟨src, bs, h, e₂⟩ := (Decoder.parses_readLocal _).bind_succeeds h _
    rw [e₂]
    obtain ⟨suc, bs, h, e₃⟩ := (Decoder.parses_readLocal _).bind_succeeds h _
    rw [e₃]
    obtain ⟨att, bs, h, e₄⟩ := (Decoder.parses_readLocal _).bind_succeeds h _
    rw [e₄]
    obtain ⟨rfl, rfl⟩ := Prod.mk.inj (Option.some.inj h)
    rfl
  · intro h
    refine (Decoder.parses_readLocal _).bind_fails h fun a bs h => ?_
    refine (Decoder.parses_readLocal _).bind_fails h fun src bs h => ?_
    refine (Decoder.parses_readLocal _).bind_fails h fun suc bs h => ?_
    refine (Decoder.parses_readLocal _).bind_fails h fun att bs h => ?_
    cases h

theorem ReadNewLoop_parses (c : PeersCodec) (H : BucketHash) (nUBuckets : Int) (todo n : Nat) :
    Decoder.Parses (ReadNewLoop c H nUBuckets todo n) ((PeersFile.parseInfo c).many todo)
      (loadNew H nUBuckets n) fun _ => () := by
  induction todo generalizing n with
  | zero => exact Decoder.parses_many_zero fun _ => rfl
  | succ todo ih =>
    unfold ReadNewLoop
    apply (ih (n + 1)).many_succ
    · intro s bs e rest h
      rw [Decoder.modify_bind, Decoder.bind_of_some ((ReadInfo_parses c n).succeeds h),
        Decoder.modify_bind]
    · intro s bs h
      rw [Decoder.modify_bind, Decoder.bind_of_none ((ReadInfo_parses c n).fails h)]
    · intro e es s
      simp only [loadNew, loadNewEntry, Loading.setInfo_setInfo, Loading.info_setInfo, Loading.fill]

theorem ReadTriedLoop_parses (c : PeersCodec) (H : BucketHash) (todo : Nat) :
    Decoder.Parses (ReadTriedLoop c H todo) ((PeersFile.parseInfo c).many todo) (loadTried H)
      fun _ => () := by
  induction todo with
  | zero => exact Decoder.parses_many_zero fun _ => rfl
  | succ todo ih =>
    unfold ReadTriedLoop
    apply ih.many_succ
    · intro s bs e rest h
      rw [Decoder.bind_of_some ((ReadLocalInfo_parses c).succeeds h), Decoder.modify_bind]
    · intro s bs h
      rw [Decoder.bind_of_none ((ReadLocalInfo_parses c).fails h)]
    · intro e es s
      rfl

theorem ReadIndexLoop_parses (c : PeersCodec) (nUBuckets : Int) (b todo : Nat) :
    Decoder.Parses (ReadIndexLoop c nUBuckets b todo) ((PeersFile.parseIndex c).many todo)
      (loadIndexes nUBuckets b) fun _ => () := by
  induction todo with
  | zero => exact Decoder.parses_many_zero fun _ => rfl
  | succ todo ih =>
    unfold ReadIndexLoop
    apply ih.many_succ
    · intro s bs k rest h
      obtain ⟨n, bs, hn, h⟩ := Parser.bind_eq_some.1 h
      obtain ⟨rfl, rfl⟩ := Prod.mk.inj (Option.some.inj h)
      rw [Decoder.bind_of_some ((Decoder.parses_readLocal _).succeeds hn), Decoder.modify_bind]
    · intro s bs h
      refine (Decoder.parses_readLocal _).bind_fails h fun n bs h => ?_
      cases h
    · intro k l s
      rfl

theorem ReadBucketLoop_parses (c : PeersCodec) (nUBuckets : Int) (todo b : Nat) :
    Decoder.Parses (ReadBucketLoop c nUBuckets todo b) ((PeersFile.parseList c).many todo)
      (loadLists nUBuckets b) fun _ => () := by
  induction todo generalizing b with
  | zero => exact Decoder.parses_many_zero fun _ => rfl
  | succ todo ih =>
    unfold ReadBucketLoop
    apply (ih (b + 1)).many_succ
    · intro s bs l rest h
      rw [Decoder.modify_bind]
      obtain ⟨nSize, bs, h, e₁⟩ := (Decoder.parses_readLocal _).bind_succeeds h _
      rw [e₁, Decoder.bind_of_some ((ReadIndexLoop_parses c nUBuckets b _).succeeds h)]
    · intro s bs h
      rw [Decoder.modify_bind]
      refine (Decoder.parses_readLocal _).bind_fails h fun nSize bs h => ?_
      rw [Decoder.bind_of_none ((ReadIndexLoop_parses c nUBuckets b _).fails h)]
    · intro l ls s
      rfl

end CAddrMan

/-! ## The file as a whole -/

/-- What the read branch makes of a file. -/
def PeersFile.load (H : BucketHash) (file : PeersFile) (s : CAddrMan.Loading) : CAddrMan.Loading :=
  let s := s.update fun am =>
    CAddrMan.clear { am with nKey := file.nKey, nNew := file.nNew, nTried := file.nTried }
  let s := CAddrMan.loadNew H file.nUBuckets 0 file.news s
  let s := { s.update (fun am => { am with nIdCount := am.nNew }) with nLost := 0 }
  let s := CAddrMan.loadTried H file.trieds s
  let s := s.update fun am => { am with nTried := am.nTried - s.nLost }
  CAddrMan.loadLists file.nUBuckets 0 file.lists s

open CAddrMan in
/-- **The read branch loads the file it parses.** It completes on exactly the bytes that parse. -/
theorem Unserialize_parses (c : PeersCodec) (H : BucketHash) :
    Decoder.Parses (Unserialize c H) (PeersFile.parse c) (PeersFile.load H) fun _ => () := by
  intro s bs
  unfold Unserialize ReadBody ReadTables PeersFile.parse
  constructor
  · intro file rest h
    obtain ⟨ver, bs, h, e₁⟩ := (Decoder.parses_readLocal _).bind_succeeds h _
    rw [e₁]
    obtain ⟨nKey, bs, h, e₁⟩ := (Decoder.parses_readInto _ _ _).bind_succeeds h _
    rw [e₁]
    obtain ⟨nNew, bs, h, e₁⟩ := (Decoder.parses_readInto _ _ _).bind_succeeds h _
    rw [e₁]
    obtain ⟨nTried, bs, h, e₁⟩ := (Decoder.parses_readInto _ _ _).bind_succeeds h _
    rw [e₁]
    obtain ⟨nUBuckets, bs, h, e₁⟩ := (Decoder.parses_readLocal _).bind_succeeds h _
    rw [e₁, Decoder.modify_bind]
    obtain ⟨news, bs, h, e₁⟩ := (ReadNewLoop_parses c H _ _ 0).bind_succeeds h _
    rw [e₁, Decoder.modify_bind]
    obtain ⟨trieds, bs, h, e₁⟩ := (ReadTriedLoop_parses c H _).bind_succeeds h _
    rw [e₁, Decoder.modify_bind]
    obtain ⟨lists, bs, h', h⟩ := Parser.bind_eq_some.1 h
    obtain ⟨rfl, rfl⟩ := Prod.mk.inj (Option.some.inj h)
    exact (ReadBucketLoop_parses c _ _ 0).succeeds h'
  · intro h
    refine (Decoder.parses_readLocal _).bind_fails h fun ver bs h => ?_
    refine (Decoder.parses_readInto _ _ _).bind_fails h fun nKey bs h => ?_
    refine (Decoder.parses_readInto _ _ _).bind_fails h fun nNew bs h => ?_
    refine (Decoder.parses_readInto _ _ _).bind_fails h fun nTried bs h => ?_
    refine (Decoder.parses_readLocal _).bind_fails h fun nUBuckets bs h => ?_
    rw [Decoder.modify_bind]
    refine (ReadNewLoop_parses c H _ _ 0).bind_fails h fun news bs h => ?_
    rw [Decoder.modify_bind]
    refine (ReadTriedLoop_parses c H _).bind_fails h fun trieds bs h => ?_
    rw [Decoder.modify_bind]
    rcases Parser.bind_eq_none.1 h with h | ⟨lists, bs', -, h⟩
    · exact (ReadBucketLoop_parses c _ _ 0).fails h
    · cases h

end TriTip
