import Kiko.Transfer.Interrupted

/-!
# Transfers that are taken up again

An attempt leaves a partial file, the next one finds it, and so on until one of them is not broken off.
Each is on its own as `Resume` says; what is shown here is what goes from one to the next: everything the
next attempt asks of the disk still holds (`Abandoned.rewritten`), nothing but the partial file has changed
(`Rewritten`), and what counts of it has grown by what came (`Advance`).

That the digests tell apart what was found is asked of the first attempt only. What an attempt leaves is
the beginning of the source, unless it broke before anything was settled, and then it is what was found.
The free space is asked for once as well: what is needed for all that does not count yet of the file is
enough for every plan that follows, since what counts does not shrink (`Advance.room`).
-/

set_option autoImplicit false

namespace Kiko.Transfer

open Lexical FileTree Dialogue

/-! ## What is kept

`Rewritten` is the relation between the disk an attempt finds and the disk it leaves. It is transitive, and
what was asked of the first disk holds of the last one, so an induction on attempts has to carry nothing
else. -/

section Rewritten

variable {env : ReceiveEnv} {source : Source env.prims} {d d' d'' : Disk} {target : FsPath} {found found' found'' : Bytes}
  {n n' : Nat}

/-- What counts of a beginning is all of it. -/
theorem validOffset_take {content : Bytes} {k : Nat} (h : k ≤ content.length) :
    validOffset content (content.take k) = k := by
  rw [validOffset, if_pos (List.take_prefix k content), List.length_take]
  exact Nat.min_eq_left h

theorem distinct_take (prims : Primitives) (content : Bytes) (k : Nat) : Distinct prims content (content.take k) := by
  intro _ hne
  refine absurd ?_ hne
  rw [← List.prefix_iff_eq_take]
  exact List.take_prefix k content

/-- Another partial file stands where the one was that was left, and nothing else has changed. -/
def Rewritten (env : ReceiveEnv) (target : FsPath) (d d' : Disk) (found' : Bytes) : Prop :=
  ∃ part, locate d.tree env.cwd (partPathFor target) = some part ∧ d'.tree = d.tree.set part (.file found')

theorem Abandoned.kept_self (h : Abandoned env source d target found) (htree : d'.tree = d.tree) :
    Rewritten env target d d' found := by
  obtain ⟨dir, hb, -, hfile⟩ := h.beside
  refine ⟨_, hb.partLocated, ?_⟩
  rw [htree, Tree.set, ← hfile, Function.update_eq_self]

/-- **What is kept is left to the next attempt.** -/
theorem Abandoned.rewritten (h : Abandoned env source d target found) (hkept : Rewritten env target d d' found') :
    Abandoned env source d' target found' := by
  obtain ⟨part, hloc, htree⟩ := hkept
  obtain ⟨dir, hb, habsent, hfile⟩ := h.beside
  obtain rfl := Option.some.inj (hb.partLocated.symm.trans hloc)
  have hleaf : Leaf d.tree (dir ++ [target.filename ++ ".kikopart"]) := .inr ⟨found, hfile⟩
  have hne : dir ++ [target.filename ++ ".kikopart"] ≠ [] := by simp
  refine
    { file := h.file, slash := h.slash, mode := h.mode, mtime := h.mtime, told := h.told, joined := h.joined
      sane := ?_, here := ?_, parent := ?_, absent := ?_, part := ?_ }
  · rw [htree]
    apply h.sane.set hb.isDir
    · intro hdir
      rw [hfile] at hdir
      cases hdir
    · intro link hlink
      cases hlink
  · rw [htree, look_set_of_ne]
    · exact h.here
    · intro heq
      have hhere := h.here
      rw [heq, look, if_neg hne, hfile] at hhere
      cases hhere
  · rw [htree, validateReceiveTargetParent_rewritten hfile]
    exact h.parent
  · have hother : dir ++ [target.filename] ≠ dir ++ [target.filename ++ ".kikopart"] := by
      intro heq
      have hname : target.filename = target.filename ++ ".kikopart" := by simpa using List.append_cancel_left heq
      exact partName_ne target.filename (Nat.lt_add_of_pos_right (by omega)) hname.symm
    rw [htree, ReceiveEnv.symlinkStatus, lstat, locate_set_file hleaf, hb.located, Option.bind_some,
      look_set_of_ne hother, look, if_neg (by simp), habsent]
  · rw [htree]
    exact lstat_set_file hleaf hb.partLocated hne

theorem Abandoned.kept_trans (h : Abandoned env source d target found) (hkept : Rewritten env target d d' found')
    (hkept' : Rewritten env target d' d'' found'') : Rewritten env target d d'' found'' := by
  obtain ⟨part, hloc, htree⟩ := hkept
  obtain ⟨part', hloc', htree'⟩ := hkept'
  obtain ⟨dir, hb, -, hfile⟩ := h.beside
  have hpart := hb.partLocated.symm.trans hloc
  have hleaf : Leaf d.tree part := .inr ⟨found, Option.some.inj hpart ▸ hfile⟩
  rw [htree, locate_set_file hleaf, hloc] at hloc'
  obtain rfl := Option.some.inj hloc'
  exact ⟨part, hloc, by rw [htree', htree, Tree.set_set]⟩

/-- A file that is delivered over what is kept is delivered over what was there at first. -/
theorem Abandoned.delivered_of_kept (h : Abandoned env source d target found) (hkept : Rewritten env target d d' found') {l : Loop}
    (hdelivered : Delivered env source d'.tree target l) : Delivered env source d.tree target l := by
  obtain ⟨part, hloc, htree⟩ := hkept
  obtain ⟨dir, hb, -, hfile⟩ := h.beside
  have hpart := hb.partLocated.symm.trans hloc
  have hleaf : Leaf d.tree part := .inr ⟨found, Option.some.inj hpart ▸ hfile⟩
  obtain ⟨part', place, hloc', hplace, hl, hrest⟩ := hdelivered
  rw [htree, locate_set_file hleaf] at hloc' hplace
  obtain rfl := Option.some.inj (hloc.symm.trans hloc')
  rw [htree, remove_set] at hl
  exact ⟨part, place, hloc, hplace, hl, hrest⟩

/-- An attempt has found something that counts up to an offset, and leaves something that counts `n` bytes further. -/
structure Advance (env : ReceiveEnv) (source : Source env.prims) (target : FsPath) (d : Disk) (found : Bytes) (n : Nat)
    (d' : Disk) (found' : Bytes) : Prop where
  kept : Rewritten env target d d' found'
  offset : validOffset source.content found' = validOffset source.content found + n
  distinct : Distinct env.prims source.content found'

/-- With space for all that did not count at first there is space for what does not count now. -/
theorem Advance.room (hadvance : Advance env source target d found n d' found')
    (hroom : env.HasSpace (source.entry.size - validOffset source.content found)) :
    env.HasSpace (source.entry.size - validOffset source.content found') := by
  refine hroom.mono (Nat.sub_le_sub_left ?_ _)
  rw [hadvance.offset]
  exact Nat.le_add_right _ _

theorem Abandoned.advance_none (h : Abandoned env source d target found)
    (hdistinct : Distinct env.prims source.content found) (htree : d'.tree = d.tree) :
    Advance env source target d found 0 d' found :=
  ⟨h.kept_self htree, rfl, hdistinct⟩

theorem Abandoned.advance_trans (h : Abandoned env source d target found)
    (hfirst : Advance env source target d found n d' found')
    (hsecond : Advance env source target d' found' n' d'' found'') :
    Advance env source target d found (n + n') d'' found'' where
  kept := h.kept_trans hfirst.kept hsecond.kept
  offset := by rw [hsecond.offset, hfirst.offset, Nat.add_assoc]
  distinct := hsecond.distinct

/-- The file has come up to some point behind the offset. -/
theorem advance_take (hkept : Rewritten env target d d' (source.content.take (validOffset source.content found + n)))
    (hle : validOffset source.content found + n ≤ source.content.length) :
    Advance env source target d found n d' (source.content.take (validOffset source.content found + n)) where
  kept := hkept
  offset := validOffset_take hle
  distinct := distinct_take _ _ _

end Rewritten

/-! ## Broken streams

Where the stream broke decides what is left: before the answer, what was found; within the payload, that
and what has come; behind the entry, the file. The three cases are those of the frames that were taken. -/

section Stream

variable {codec : StreamCodec} {env : ReceiveEnv} {source : Source env.prims} {d : Disk} {target : FsPath}
  {found : Bytes}

/-- How much of an open payload has come. -/
def StreamPc.carried : StreamPc codec → Nat
  | .payload q => q.currentTotal - q.session.resumeOffset
  | _ => 0

/-- The answer is settled, and the partial file open at its place. -/
theorem Abandoned.settled (h : Abandoned env source d target found) (hdistinct : Distinct env.prims source.content found)
    {log : List Report} {session : Session} {d' : Disk}
    (hsettle : env.settleSession source (questionFor source target found) { d with log := log } = .ok session d') :
    session = .receivePayload (sessionFor source target found) ∧
      ∃ part, locate d.tree env.cwd (partPathFor target) = some part ∧
        d'.tree = d.tree.set part (.file (keptOf source found)) ∧
        ∀ out content, env.partPlace d'.tree (partPathFor target) = some (out, content) → out = part := by
  obtain ⟨dir, hb, -, hfile⟩ := h.beside
  obtain ⟨log', touched, hsettle'⟩ := h.settleSession hdistinct hb.partLocated hfile (by simp) log
  rw [hsettle'] at hsettle
  cases hsettle
  refine ⟨rfl, _, hb.partLocated, rfl, fun out content hplace => ?_⟩
  rw [partPlace_set d.tree hb.partLocated hfile (by simp)] at hplace
  exact (Prod.mk.inj (Option.some.inj hplace)).1.symm

/-- A payload that is halfway has come further. -/
theorem Abandoned.halfway (h : Abandoned env source d target found) (hdistinct : Distinct env.prims source.content found)
    {log : List Report} {q : StreamPayload codec} {d' : Disk}
    (hhalfway : Halfway env source (questionFor source target found) { d with log := log } q d'.tree) :
    ∃ found', Advance env source target d found (q.currentTotal - q.session.resumeOffset) d' found' := by
  obtain ⟨d₁, out, content, begun, hsettle, hplace, hprefix, htotal, htree⟩ := hhalfway
  obtain ⟨hsession, part, hloc, hd₁, hout⟩ := h.settled hdistinct hsettle
  have hq : q.session = sessionFor source target found := Session.receivePayload.inj hsession
  rw [hq] at hplace hprefix htotal htree
  obtain rfl := hout out content hplace
  have hle := validOffset_le source.content found
  have hhashed : (sessionFor source target found).hashed.length = validOffset source.content found := by
    show (source.content.take _).length = _
    rw [List.length_take]
    exact Nat.min_eq_left hle
  have hlength : q.currentTotal - q.session.resumeOffset = begun.length := by
    rw [htotal, hq, List.length_append, hhashed]
    exact Nat.add_sub_cancel_left ..
  have hwithin : validOffset source.content found + begun.length ≤ source.content.length := by
    have hshort := hprefix.length_le
    rw [List.length_drop] at hshort
    change begun.length ≤ source.content.length - validOffset source.content found at hshort
    omega
  have hbegun : (sessionFor source target found).hashed ++ begun =
      source.content.take (validOffset source.content found + begun.length) := by
    change begun <+: source.content.drop (validOffset source.content found) at hprefix
    rw [List.take_add, ← List.prefix_iff_eq_take.mp hprefix]
    rfl
  rw [hlength]
  refine ⟨_, advance_take ⟨out, hloc, ?_⟩ hwithin⟩
  rw [htree, hd₁, Tree.set_set, hbegun]

/-- Where a file has been delivered, it stands. -/
theorem Abandoned.stands (h : Abandoned env source d target found) {l : Loop}
    (hdelivered : Delivered env source d.tree target l) : env.symlinkStatus l.disk.tree target ≠ none := by
  obtain ⟨dir, hb, habsent, hfile⟩ := h.beside
  obtain ⟨part, place, hloc, hplace, htree, -⟩ := hdelivered
  obtain rfl := Option.some.inj (hb.partLocated.symm.trans hloc)
  obtain rfl := Option.some.inj (hb.located.symm.trans hplace)
  have hremove : Keeps d.tree (d.tree.remove (dir ++ [target.filename ++ ".kikopart"])) :=
    Leaf.keeps_remove (.inr ⟨found, hfile⟩)
  have hleaf : Leaf (d.tree.remove (dir ++ [target.filename ++ ".kikopart"])) (dir ++ [target.filename]) := by
    left
    by_cases heq : dir ++ [target.filename] = dir ++ [target.filename ++ ".kikopart"]
    · rw [heq, Tree.remove_self]
    · rw [Tree.remove_of_ne _ heq, habsent]
  have hlocated := locate_keeps (hremove.trans (hleaf.keeps_set (.file source.content))) hb.located
  rw [htree, ReceiveEnv.symlinkStatus, lstat, hlocated, Option.bind_some, look, if_neg (by simp), Tree.set_self]
  exact Option.some_ne_none _

/-- The receiver after its question about what was left. -/
def asked (source : Source env.prims) (d : Disk) (target : FsPath) (log : List Report) : Loop where
  disk := { d with log := log }
  plan := some (plannedFor source.entry target [source.entry.relative])
  sawManifest := true
  sawFileHeader := true

theorem Abandoned.asks (h : Abandoned env source d target found) (log : List Report) :
    env.takeFileHeader (makeFileHeader source.entry)
        { disk := { d with log := log }, plan := some (plannedFor source.entry target []), sawManifest := true } =
      .ok (questionFor source target found) (asked source d target log) :=
  h.takeFileHeader log

/-- When all of the entry has been taken, the file stands or the receiver is over. -/
theorem Abandoned.entry_whole (h : Abandoned env source d target found)
    (hdistinct : Distinct env.prims source.content found) (log : List Report) {cs : List Frame} (hcs : cs <+: [.done])
    {r : StreamRecv codec} (hr : r = (drain (StreamRecv.feed env)
      { loop := asked source d target log, pc := .await (questionFor source target found) }
      ((streamSend codec).entry source (agreedSession source (questionFor source target found)) ++ cs)).1)
    (hlive : r.pc.over = false) : env.symlinkStatus r.loop.disk.tree target ≠ none := by
  have hoffers := takeFileHeader_offers (h.asks log)
  obtain ⟨l₁, hexchange, -, hdelivered⟩ := h.exchange hdistinct log
    (some (plannedFor source.entry target [source.entry.relative]))
  have hshows := ((stream_follows env codec).entry (asked source d target log) _ source hoffers).2
  rw [verdict, show env.exchange source _ (asked source d target log) = _ from hexchange] at hshows
  rw [drain_append] at hr
  replace hr : r = (drain (StreamRecv.feed env) { loop := l₁ } cs).1 :=
    hr.trans (congrArg (fun r' => (drain (StreamRecv.feed env) r' cs).1) hshows)
  rcases List.prefix_cons_iff.mp hcs with rfl | ⟨cs, rfl, hnil⟩
  · rw [hr]
    exact h.stands hdelivered
  · rw [List.prefix_nil.mp hnil, drain_cons, feed_done] at hr
    cases hdone : takeDone l₁ with
    | ok _ l₂ =>
      rw [hdone] at hr
      rw [hr] at hlive
      cases hlive
    | error e l₂ =>
      rw [hdone] at hr
      rw [hr] at hlive
      cases hlive

/-- Within the entry its payload is open. -/
theorem Abandoned.entry_within (h : Abandoned env source d target found)
    (hdistinct : Distinct env.prims source.content found) (log : List Report) {before after : List Frame}
    (hbody : (streamSend codec).body source (agreedSession source (questionFor source target found)) = before ++ after) :
    ∃ q, (drain (StreamRecv.feed env)
      { loop := asked source d target log, pc := (.await (questionFor source target found) : StreamPc codec) }
      (.resumeAck (resumeAckMessage (agreedSession source (questionFor source target found)).accepted) :: before)).1.pc =
        .payload q := by
  have hheader := h.asks log
  obtain ⟨part, -, hagreed⟩ := h.agreed hdistinct log (some (plannedFor source.entry target [source.entry.relative]))
  obtain ⟨q, l', hframe, -⟩ := hagreed.stream codec
  have hfeed : StreamRecv.feed env
      { loop := asked source d target log, pc := (.await (questionFor source target found) : StreamPc codec) }
      (.resumeAck (resumeAckMessage (agreedSession source (questionFor source target found)).accepted)) =
        ({ loop := l', pc := .payload q }, []) := by
    rw [hagreed.accepted (takeFileHeader_offers hheader), feed_eq rfl,
      show onFrame env _ _ (asked source d target log) = _ from hframe]
  have hfeed' := hfeed
  rw [feed_ack (takeFileHeader_offers hheader)] at hfeed'
  rw [drain_cons, hfeed]
  cases hsettle : env.settleSession source (questionFor source target found) (asked source d target log).disk with
  | error e d' =>
    rw [hsettle] at hfeed'
    cases hfeed'
  | ok session d' =>
    obtain ⟨rfl, -⟩ := h.settled hdistinct hsettle
    rw [hsettle] at hfeed'
    dsimp only at hfeed'
    cases hopen : (openSession env (.receivePayload (sessionFor source target found)) d' :
        EStateM.Result _ _ (StreamPc codec)) with
    | error e d'' =>
      rw [hopen] at hfeed'
      cases hfeed'
    | ok pc d'' =>
      rw [hopen] at hfeed'
      cases hfeed'
      obtain ⟨out, content, begun, dec, -, -, hdrain⟩ := payload_begun hheader hsettle hopen hbody
      exact ⟨_, congrArg StreamRecv.pc hdrain⟩

end Stream

section Stream

variable {codec : StreamCodec} {env : ReceiveEnv} {source : Source env.prims} {d : Disk} {target : FsPath}
  {found : Bytes}

/-- A stream can be broken anywhere behind the question. -/
theorem Abandoned.entry_broken (h : Abandoned env source d target found)
    (hdistinct : Distinct env.prims source.content found) (log : List Report) {pre later : List Frame}
    (hpre : pre ++ later = (streamSend codec).entry source (agreedSession source (questionFor source target found)) ++
      [.done])
    {r : StreamRecv codec} (hr : r = (drain (StreamRecv.feed env)
      { loop := asked source d target log, pc := .await (questionFor source target found) } pre).1)
    (hlive : r.pc.over = false) (habsent : env.symlinkStatus r.loop.disk.tree target = none) :
    ∃ found', Advance env source target d found r.pc.carried r.loop.disk found' := by
  have hheader := h.asks log
  cases pre with
  | nil =>
    rw [hr]
    exact ⟨found, h.advance_none hdistinct rfl⟩
  | cons frame pre =>
    rcases List.append_eq_append_iff.mp hpre with ⟨cs, hentry, -⟩ | ⟨cs, hsplit, hcs⟩
    · rcases List.eq_nil_or_concat cs with rfl | ⟨cs, x, rfl⟩
      · rw [List.append_nil] at hentry
        rw [← hentry, ← List.append_nil ((streamSend codec).entry _ _)] at hr
        exact absurd habsent (h.entry_whole hdistinct log List.nil_prefix hr hlive)
      · obtain ⟨hack, hbody⟩ : frame = .resumeAck (resumeAckMessage (agreedSession source
            (questionFor source target found)).accepted) ∧
            (streamSend codec).body source (agreedSession source (questionFor source target found)) = pre ++ cs := by
          have hsplit : (.resumeAck (resumeAckMessage (agreedSession source (questionFor source target found)).accepted) ::
              ((streamSend codec).body source (agreedSession source (questionFor source target found)))) ++
              [.fileEnd (endMessage (trailerSha256 source (agreedSession source (questionFor source target found))))] =
                (frame :: (pre ++ cs)) ++ [x] := by
            rw [List.concat_eq_append, ← List.append_assoc] at hentry
            exact hentry
          obtain ⟨hsame, -⟩ := List.append_inj' hsplit rfl
          obtain ⟨hack, hbody⟩ := List.cons.inj hsame
          exact ⟨hack.symm, hbody⟩
        subst hack
        obtain ⟨q, hpc⟩ := h.entry_within hdistinct log hbody
        have hhalfway := entry_halfway hheader
          (show _ = _ ++ ((streamSend codec).announce []).1 from hpre) hpc
        rw [← hr] at hpc hhalfway
        rw [hpc]
        exact h.halfway hdistinct hhalfway
    · rw [hsplit] at hr
      exact absurd habsent (h.entry_whole hdistinct log ⟨_, hcs.symm⟩ hr hlive)

/-- **Wherever a stream breaks before the file is there, the next attempt has at least what this one had.** -/
theorem Leftover.stream_broken (h : Leftover env source d target found)
    (hdistinct : Distinct env.prims source.content found) {capDown capUp : Option Nat}
    {s : StreamTransfer.System env codec}
    (hreach : Lts.Reach (StreamTransfer.step capDown capUp) (StreamTransfer.init codec [source] d) s)
    (hlive : s.recv.pc.over = false) (habsent : env.symlinkStatus s.recv.loop.disk.tree target = none) :
    ∃ found', Advance env source target d found s.recv.pc.carried s.recv.loop.disk found' := by
  obtain ⟨text, log, htext, hmanifest⟩ := h.takeManifest
  have hplanned : (drain (StreamRecv.feed env) { loop := { disk := d }, pc := (.idle : StreamPc codec) }
      [.manifest text]).1.loop = { disk := { d with log := log }, plan := some (plannedFor source.entry target [])
                                   sawManifest := true } := by
    rw [drain_cons, feed_manifest, hmanifest]
    rfl
  cases reach_trail hreach with
  | ended hover =>
    rw [hover] at hlive
    cases hlive
  | unsaid hrecv =>
    rw [hrecv]
    exact ⟨found, h.advance_none hdistinct rfl⟩
  | along r₀ base pre rest horigin hscript hwait hrecv =>
    cases horigin with
    | start text' htext' =>
      obtain rfl : text = text' := Except.ok.inj (htext.symm.trans htext')
      have hprefix : pre <+: [.manifest text, .fileHeader (makeFileHeader source.entry)] := ⟨_, hscript⟩
      rcases List.prefix_cons_iff.mp hprefix with rfl | ⟨pre, rfl, hshort⟩
      · rw [hrecv]
        exact ⟨found, h.advance_none hdistinct rfl⟩
      · rcases List.prefix_cons_iff.mp hshort with rfl | ⟨pre, rfl, hnil⟩
        · rw [drain_cons, feed_manifest, hmanifest] at hrecv
          rw [hrecv]
          exact ⟨found, h.advance_none hdistinct rfl⟩
        · rw [List.prefix_nil.mp hnil, drain_cons, feed_manifest, hmanifest, drain_cons] at hrecv
          dsimp only at hrecv
          rw [feed_fileHeader, h.asks log] at hrecv
          rw [hrecv]
          exact ⟨found, h.advance_none hdistinct rfl⟩
    | entry r₁ base₁ source' rest l p hbefore hheader =>
      have hsuffix : source' :: rest <:+ [source] := hbefore.suffix
      have hone := hsuffix.eq_of_length_le (by simp)
      obtain ⟨rfl, rfl⟩ := List.cons.inj hone
      cases hbefore with
      | start text' htext' =>
        obtain rfl : text = text' := Except.ok.inj (htext.symm.trans htext')
        rw [hplanned, h.asks log] at hheader
        cases hheader
        exact h.entry_broken hdistinct log hscript hrecv hlive habsent
      | entry r₂ base₂ source'' rest' l' p' hbefore' hheader' =>
        -- there is no second source
        have htwo := hbefore'.suffix.length_le
        simp at htwo

end Stream

/-! ## Broken readers

The readers write out of order, so what has come is more than what counts. The front is what is left. -/

section Readers

variable {m : Nat} {env : ReceiveEnv} {source : Source env.prims} {d : Disk} {target : FsPath} {found : Bytes}

/-- **However the readers stop, the next attempt has what has come up to the front.** -/
theorem Leftover.readers_broken (h : Leftover env source d target found)
    (hdistinct : Distinct env.prims source.content found) {text : ManifestText} {l l' : Loop} {p : Pending}
    {session : PayloadSession} {out : Place} {recv : MuxRecv (m + 1)} {r : Loop}
    (htext : encodeTransferManifest env.prims [source.entry] = .ok text)
    (hmanifest : env.takeManifest text { disk := d } = .ok () l)
    (hheader : env.takeFileHeader (makeFileHeader source.entry) l = .ok p l')
    (hack : MuxLoop.control env { loop := l', pc := (.await p : MuxPc (m + 1)) }
      (.resumeAck (resumeAckMessage (agreedSession source p).accepted)) =
        ({ loop := r, pc := .receiving session out recv }, []))
    {job : Job} (hcontent : job.content = source.content) (hstart : recv = MuxRecv.start (m + 1) job.prior job.offset)
    {codec : BlockCodec} {cap : Fin (m + 1) → Option Nat} {s : MuxDelivery.System (m + 1)}
    (hreach : Lts.Reach (MuxDelivery.step codec job cap) (MuxDelivery.init (m + 1) job) s)
    {r' : MuxLoop (m + 1)}
    (hret : (MuxLoop.wrote { loop := r, pc := .receiving session out recv } session out s.recv).ret = some r') :
    ∃ found', Advance env source target d found (s.recv.ranges.front - session.resumeOffset) r'.loop.disk found' := by
  obtain ⟨text', log, htext', hmanifest'⟩ := h.takeManifest
  obtain rfl : text = text' := Except.ok.inj (htext.symm.trans htext')
  rw [hmanifest'] at hmanifest
  cases hmanifest
  have hheader' := hheader
  rw [h.asks log] at hheader'
  cases hheader'
  obtain ⟨d₁, content, hsettle, hplace, hrecv, htree⟩ := readers_started hheader hack
  obtain ⟨hsession, part, hloc, hd₁, hout⟩ := h.settled hdistinct hsettle
  obtain rfl : session = sessionFor source target found := Session.receivePayload.inj hsession
  obtain rfl := hout out content hplace
  -- the readers started on what counts of what was found
  have hprior : job.prior = source.content.take (validOffset source.content found) :=
    congrArg MuxRecv.part (hstart.symm.trans hrecv)
  have hoffset : job.offset = validOffset source.content found :=
    congrArg MuxRecv.written (hstart.symm.trans hrecv)
  simp only [MuxLoop.wrote, MuxLoop.ret] at hret
  split_ifs at hret with hjoined
  obtain rfl := Option.some.inj hret
  have hbegins : job.prior <+: job.content := by
    rw [hprior, hcontent]
    exact List.take_prefix ..
  obtain ⟨hfile, hresumed, hwithin⟩ := result_of_joined hbegins hreach hjoined
  rw [hoffset] at hresumed
  rw [hcontent] at hfile hwithin
  obtain ⟨n, hn⟩ := Nat.exists_eq_add_of_le hresumed
  -- what they carry on is what has come up to the front
  have hcarried : s.recv.ranges.front - (sessionFor source target found).resumeOffset = n := by
    rw [hn]
    exact Nat.add_sub_cancel_left ..
  rw [hcarried]
  refine ⟨_, advance_take ⟨out, hloc, ?_⟩ (hn ▸ hwithin)⟩
  show ((r.disk.tree.set out (.file s.recv.part)).set out (.file s.recv.result.2)) = _
  rw [Tree.set_set, htree, hd₁, Tree.set_set, Tree.set_set, hfile, hn]

end Readers

/-! ## Attempt after attempt

How an attempt is broken off is a relation, and the attempts are its closure. Nothing is said of how many
there are, nor that they use the same path: one may be over a stream and the next over many channels. -/

/-- An attempt to send the file that is broken off before the file is there, and how much of the file has come in it:
    over a stream at any moment, over many channels when the readers are joined, whatever they have made of their
    channels. -/
inductive Broken (env : ReceiveEnv) (source : Source env.prims) (target : FsPath) (d : Disk) : Nat → Disk → Prop
  | stream (codec : StreamCodec) (capDown capUp : Option Nat) (s : StreamTransfer.System env codec)
      (hreach : Lts.Reach (StreamTransfer.step capDown capUp) (StreamTransfer.init codec [source] d) s)
      (hlive : s.recv.pc.over = false) (habsent : env.symlinkStatus s.recv.loop.disk.tree target = none) :
      Broken env source target d s.recv.pc.carried s.recv.closed.loop.disk
  | mux (m : Nat) (text : ManifestText) (l l' : Loop) (p : Pending) (session : PayloadSession) (out : Place)
      (recv : MuxRecv (m + 1)) (r : Loop) (job : Job) (codec : BlockCodec) (cap : Fin (m + 1) → Option Nat)
      (s : MuxDelivery.System (m + 1)) (r' : MuxLoop (m + 1))
      (htext : encodeTransferManifest env.prims [source.entry] = .ok text)
      (hmanifest : env.takeManifest text { disk := d } = .ok () l)
      (hheader : env.takeFileHeader (makeFileHeader source.entry) l = .ok p l')
      (hack : MuxLoop.control env { loop := l', pc := (.await p : MuxPc (m + 1)) }
        (.resumeAck (resumeAckMessage (agreedSession source p).accepted)) =
          ({ loop := r, pc := .receiving session out recv }, []))
      (hcontent : job.content = source.content) (hparams : job.params = session.params)
      (hstart : recv = MuxRecv.start (m + 1) job.prior job.offset)
      (hreach : Lts.Reach (MuxDelivery.step codec job cap) (MuxDelivery.init (m + 1) job) s)
      (hret : (MuxLoop.wrote { loop := r, pc := .receiving session out recv } session out s.recv).ret = some r') :
      Broken env source target d (s.recv.ranges.front - session.resumeOffset) r'.loop.disk

/-- Attempt after attempt is broken off, each on the disk the last has left. -/
inductive Attempts (env : ReceiveEnv) (source : Source env.prims) (target : FsPath) (d : Disk) :
    List Nat → Disk → Prop
  | nil : Attempts env source target d [] d
  | concat {ns : List Nat} {n : Nat} {d' d'' : Disk} :
      Attempts env source target d ns d' → Broken env source target d' n d'' → Attempts env source target d (ns ++ [n]) d''

section Again

variable {env : ReceiveEnv} {source : Source env.prims} {d d' : Disk} {target : FsPath} {found : Bytes} {n : Nat}
  {ns : List Nat}

theorem Leftover.broken (h : Leftover env source d target found) (hdistinct : Distinct env.prims source.content found)
    (hbroken : Broken env source target d n d') : ∃ found', Advance env source target d found n d' found' := by
  cases hbroken with
  | stream codec capDown capUp s hreach hlive habsent =>
    have hclosed : s.recv.closed.loop = s.recv.loop := by
      unfold StreamRecv.closed
      cases s.recv.pc <;> rfl
    rw [hclosed]
    exact h.stream_broken hdistinct hreach hlive habsent
  | mux m text l l' p session out recv r job codec cap s r' htext hmanifest hheader hack hcontent hparams hstart hreach
      hret =>
    exact h.readers_broken hdistinct htext hmanifest hheader hack hcontent hstart hreach hret

theorem Abandoned.attempts (h : Abandoned env source d target found)
    (hroom : env.HasSpace (source.entry.size - validOffset source.content found))
    (hdistinct : Distinct env.prims source.content found) (hattempts : Attempts env source target d ns d') :
    ∃ found', Advance env source target d found ns.sum d' found' := by
  induction hattempts with
  | nil => exact ⟨found, h.advance_none hdistinct rfl⟩
  | concat hbefore hbroken ih =>
    obtain ⟨found', hadvance⟩ := ih
    have hleft := (h.rewritten hadvance.kept).leftover (hadvance.room hroom)
    obtain ⟨found'', hadvance'⟩ := hleft.broken hadvance.distinct hbroken
    refine ⟨found'', ?_⟩
    rw [List.sum_append, List.sum_singleton]
    exact h.advance_trans hadvance hadvance'

end Again

/-- **However often a transfer is broken off, each attempt goes on where the last one stopped.** There is one file, a
    partial file that has been left of it, and space for what does not count of that. Over a stream or over many
    channels, in any order of the two: what has come in an attempt need not come again, and the attempt that is not
    broken off completes the file, with everything as if it had been the first. -/
theorem attempts_resume (env : ReceiveEnv) (source : Source env.prims) (d d' : Disk) (target : FsPath) (found : Bytes)
    (ns : List Nat) (h : Abandoned env source d target found)
    (hroom : env.HasSpace (source.entry.size - validOffset source.content found))
    (hdistinct : Distinct env.prims source.content found) (hattempts : Attempts env source target d ns d') :
    validOffset source.content found + ns.sum ≤ source.content.length ∧
    (∃ text p l part, encodeTransferManifest env.prims [source.entry] = .ok text ∧
      (do env.takeManifest text; env.takeFileHeader (makeFileHeader source.entry)) { disk := d' } = .ok p l ∧
      Agreed env source l p part (validOffset source.content found + ns.sum)) ∧
    (∀ (codec : StreamCodec) (capDown capUp : Option Nat),
      (∀ c, capDown = some c → 0 < c) → (∀ c, capUp = some c → 0 < c) →
      ∃ l, Lts.Concludes (StreamTransfer.step capDown capUp) (StreamTransfer.init codec [source] d')
          (fun s => s.recv.outcome) (.ok l) ∧ Delivered env source d.tree target l) ∧
    ∀ (codec : BlockCodec) (m : Nat) (capDown : Fin (m + 1) → Option Nat) (capUp : Option Nat),
      (∀ k c, capDown k = some c → 0 < c) → (∀ c, capUp = some c → 0 < c) →
      ∃ l, Lts.Concludes (MuxTransfer.step codec capDown capUp) (MuxTransfer.init m [source] d')
          (fun s => s.recv.outcome) (.ok l) ∧ Delivered env source d.tree target l := by
  obtain ⟨found', hadvance⟩ := h.attempts hroom hdistinct hattempts
  have hleft := (h.rewritten hadvance.kept).leftover (hadvance.room hroom)
  obtain ⟨text, log, htext, hmanifest⟩ := hleft.takeManifest
  obtain ⟨part, -, hagreed⟩ := hleft.agreed hadvance.distinct log
    (some (plannedFor source.entry target [source.entry.relative]))
  obtain ⟨l, hconclusion, hdelivered⟩ := hleft.conclusion hadvance.distinct
  have hfirst := h.delivered_of_kept hadvance.kept hdelivered
  rw [hadvance.offset] at hagreed
  refine ⟨hadvance.offset ▸ validOffset_le source.content found', ⟨text, _, _, part, htext, ?_, hagreed⟩,
    fun codec capDown capUp hdown hup => ⟨l, ?_, hfirst⟩, fun codec m capDown capUp hdown hup => ⟨l, ?_, hfirst⟩⟩
  · rw [bind_of_ok hmanifest, hleft.takeFileHeader log]
  · rw [← hconclusion]
    exact stream_concludes env codec hdown hup [source] d'
  · rw [← hconclusion]
    exact mux_concludes env codec hdown hup [source] d'

theorem half_sample_room :
    leftoverEnv.HasSpace (leftoverSource.entry.size - validOffset leftoverSource.content [104]) :=
  .inr ⟨2 ^ 40, rfl, by decide⟩

/-- A stream that breaks when all but its end has come. -/
theorem broken_sample :
    ∃ d', Broken leftoverEnv leftoverSource { isAbsolute := true, parts := ["out", "hi.txt"] } halfDisk 2 d' := by
  obtain ⟨s, hreach, hs⟩ := Lts.Reach.exists_of_run (StreamTransfer.step (some 1) (some 1))
    (StreamTransfer.init storedStream [leftoverSource] halfDisk)
    [.send, .take, .send, .take, .reply, .answer, .send, .take, .send, .take]
    (fun s => s.recv.pc.over = false ∧ s.recv.pc.carried = 2 ∧
      (leftoverEnv.symlinkStatus s.recv.loop.disk.tree { isAbsolute := true, parts := ["out", "hi.txt"] }).isNone)
    (by decide +kernel)
  obtain ⟨hlive, hcarried, habsent⟩ := of_decide_eq_true hs
  have hbroken := Broken.stream storedStream (some 1) (some 1) s hreach hlive (Option.isNone_iff_eq_none.mp habsent)
  rw [hcarried] at hbroken
  exact ⟨_, hbroken⟩

theorem delivered_sample {l : Loop}
    (h : Delivered leftoverEnv leftoverSource halfDisk.tree { isAbsolute := true, parts := ["out", "hi.txt"] } l) :
    l.disk.tree ["out", "hi.txt"] = some (.file [104, 105, 33]) := by
  obtain ⟨part, place, -, hplace, htree, -⟩ := h
  have hat : locate halfDisk.tree leftoverEnv.cwd { isAbsolute := true, parts := ["out", "hi.txt"] } =
      some ["out", "hi.txt"] := by decide +kernel
  obtain rfl := Option.some.inj (hplace.symm.trans hat)
  rw [htree, Tree.set_self]
  rfl

/-- That stream, and another after it. -/
theorem attempts_resume_sample :
    ∃ d', Attempts leftoverEnv leftoverSource { isAbsolute := true, parts := ["out", "hi.txt"] } halfDisk [2] d' ∧
      ∃ l, Lts.Concludes (StreamTransfer.step (some 1) (some 1))
          (StreamTransfer.init storedStream [leftoverSource] d') (fun s => s.recv.outcome) (.ok l) ∧
        l.disk.tree ["out", "hi.txt"] = some (.file [104, 105, 33]) := by
  obtain ⟨d', hbroken⟩ := broken_sample
  have hattempts : Attempts leftoverEnv leftoverSource { isAbsolute := true, parts := ["out", "hi.txt"] } halfDisk [2] d' :=
    .concat .nil hbroken
  refine ⟨d', hattempts, ?_⟩
  obtain ⟨-, -, hstream, -⟩ := attempts_resume leftoverEnv leftoverSource halfDisk d'
    { isAbsolute := true, parts := ["out", "hi.txt"] } [104] [2] half_sample.toAbandoned half_sample_room
    (fun _ h => absurd rfl h) hattempts
  obtain ⟨l, hends, hdelivered⟩ := hstream storedStream (some 1) (some 1) (by simp) (by simp)
  exact ⟨l, hends, delivered_sample hdelivered⟩

end Kiko.Transfer
