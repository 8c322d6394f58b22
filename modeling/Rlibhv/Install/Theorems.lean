import Mathlib.Data.List.Induction
import Rlibhv.Install.Script

namespace Rlibhv.Install

variable {o : Faults} {t t' : Tree} {fs fs' : Fs} {src dst d p q r : Path} {ns : List Name} {b : Bool}
  {node : Node} {k : Copy} {c : Contents}

-- What a copy that can open its destination leaves there.
def Copy.written (k : Copy) : Contents :=
  match k.result with
  | .truncated n => k.contents.take n
  | _            => k.contents

def Copy.apply (before : Option Contents) (k : Copy) : Option Contents :=
  if k.result = .failed then before else some k.written

-- The last of the copies that can open their destination leaves the contents `c`, or there is none and
-- the destination has had these contents before.
def Delivers (c : Contents) (before : Option Contents) (ks : List Copy) : Prop :=
  match (ks.filter (·.result ≠ .failed)).getLast? with
  | none   => before = some c
  | some k => k.written = c

theorem foldl_apply_iff {before : Option Contents} {ks : List Copy} :
    ks.foldl Copy.apply before = some c ↔ Delivers c before ks := by
  induction ks using List.reverseRecOn
  case nil => rfl
  case append_singleton ks k hi =>
    rw [List.foldl_concat, Copy.apply]
    split
    case isTrue hf => simpa [Delivers, hf] using hi
    case isFalse hf => simp [Delivers, hf]

theorem rel?_eq_some : rel? d p = some r ↔ p = d ++ r := by
  simp only [rel?]
  split
  case isTrue h =>
    obtain ⟨r', rfl⟩ := h
    simp
  case isFalse h =>
    refine ⟨nofun, fun he => absurd ⟨r, he.symm⟩ h⟩

theorem rel?_append : rel? d (d ++ r) = some r :=
  rel?_eq_some.mpr rfl

-- The copy that is made for the entry at `r`, if it is the given node.
def copyOf (o : Faults) (src dst : Path) (recursive : Bool) (ns : List Name) (r : Path) (node : Node) :
    Option Copy :=
  match r, node with
  | n :: rest, .file c =>
    if n ∈ ns ∧ (recursive ∨ rest = []) ∧ reached o src dst (n :: rest) then
      some ⟨c, o.copy (src ++ n :: rest) (dst ++ n :: rest)⟩
    else none
  | _, _ => none

-- The copy to `q` that a command makes.
def attempt (o : Faults) (t : Tree) (q : Path) : Command → Option Copy
  | .copy src ext dst recursive =>
    let ns := sysGlob t src ext
    if o.dir src dst then do
      let r ← rel? dst q
      copyOf o src dst recursive ns r (← t.lookup (src ++ r))
    else
      match ns with
      | [n] => if q = dst then some ⟨(fileAt t (src ++ [n])).getD [], o.copy (src ++ [n]) dst⟩ else none
      | _   => none
  | .unlink _ => none

-- The command raises an error.
def stops (o : Faults) (t : Tree) : Command → Bool
  | .copy src ext dst _ => !o.dir src dst && 1 < (sysGlob t src ext).length
  | .unlink _           => false

theorem fileAt_write : fileAt (write d k t) q = if q = d then k.apply (fileAt t q) else fileAt t q := by
  by_cases hq : q = d
  case neg =>
    simp only [hq, if_false, fileAt, write]
    split
    case h_2 => rfl
    all_goals rw [AList.lookup_insert_ne hq]
  case pos =>
    subst hq
    simp only [if_true, fileAt, write, Copy.apply, Copy.written]
    split
    case h_2 hk => simp [hk]
    all_goals
      rename_i hk
      simp [hk, Node.contents]

theorem fileAt_mkdir : fileAt (mkdir d t) q = fileAt t q := by
  simp only [mkdir]
  split
  case isFalse => rfl
  case isTrue hn =>
    by_cases hq : q = d
    case neg => simp only [fileAt, AList.lookup_insert_ne hq]
    case pos =>
      subst hq
      simp only [fileAt, AList.lookup_insert]
      simp_all [Node.contents]

-- The destination of the entry at `r` is changed by the copy that is made for it,
theorem fileAt_doCopy : fileAt (doCopy o src dst b ns t (src ++ r) node) (dst ++ r) =
    (copyOf o src dst b ns r node).toList.foldl Copy.apply (fileAt t (dst ++ r)) := by
  simp only [doCopy, rel?_append]
  cases r
  case nil => rfl
  case cons n rest =>
    dsimp only
    split
    case isFalse h =>
      cases node
      case dir  => rfl
      case file => simp only [copyOf, h, if_false, Option.toList_none, List.foldl_nil]
    case isTrue h =>
      cases node
      case file => simp only [copyOf, h, fileAt_write, if_true]; rfl
      case dir  =>
        dsimp only
        split
        case isTrue  => exact fileAt_mkdir
        case isFalse => rfl

-- and by no other.
theorem fileAt_doCopy_of_ne (h : ∀ r, p = src ++ r → q ≠ dst ++ r) :
    fileAt (doCopy o src dst b ns t p node) q = fileAt t q := by
  simp only [doCopy]
  split
  case h_2 => rfl
  case h_1 n rest hr =>
    have hq := h _ <| rel?_eq_some.mp hr
    split
    case isFalse => rfl
    case isTrue  =>
      cases node
      case file => simp only [fileAt_write, hq, if_false]
      case dir  =>
        dsimp only
        split
        case isTrue  => exact fileAt_mkdir
        case isFalse => rfl

theorem fileAt_foldl {es : List (Sigma fun _ : Path => Node)} (hn : es.NodupKeys) :
    fileAt (es.foldl (fun t e => doCopy o src dst b ns t e.fst e.snd) t) q =
      ((rel? dst q).bind fun r => (es.dlookup (src ++ r)).bind
        (copyOf o src dst b ns r)).toList.foldl Copy.apply (fileAt t q) := by
  induction es generalizing t
  case nil => cases rel? dst q <;> simp
  case cons e es hi =>
    obtain ⟨p, node⟩ := e
    rw [List.nodupKeys_cons] at hn
    rw [List.foldl_cons, hi hn.right]
    cases hr : rel? dst q
    case none =>
      refine fileAt_doCopy_of_ne fun r _ hq => ?_
      simp [rel?_eq_some.mpr hq] at hr
    case some r =>
      obtain rfl := rel?_eq_some.mp hr
      by_cases hp : p = src ++ r
      case pos =>
        subst hp
        have hd := List.dlookup_eq_none.mpr hn.left
        simp only [Option.bind_some, List.dlookup_cons_eq, hd, Option.bind_none, Option.toList_none,
          List.foldl_nil]
        exact fileAt_doCopy
      case neg =>
        have he := List.dlookup_cons_ne es ⟨p, node⟩ (Ne.symm hp)
        simp only [Option.bind_some, he]
        rw [fileAt_doCopy_of_ne]
        intro r' hr' hq
        exact hp <| List.append_cancel_left hq ▸ hr'

namespace Command

variable {cmd : Command}

theorem exec_stop (h : stops o fs.source cmd) : cmd.exec o fs = .error fs := by
  cases cmd
  case unlink => cases h
  case copy src ext dst b =>
    simp only [stops, Bool.and_eq_true, Bool.not_eq_true', decide_eq_true_eq] at h
    simp only [exec, fileCopy, h.left]
    rcases hns : sysGlob fs.source src ext with _ | ⟨n, _ | ⟨m, ns⟩⟩
    case nil      => simp [hns] at h
    case cons.nil => simp [hns] at h
    case cons.cons => rfl

theorem copyOf_nil : copyOf o src dst b [] r node = none := by
  simp only [copyOf]
  split
  case h_1 => simp
  case h_2 => rfl

theorem exec_copy {ext : Name} (h : ¬stops o fs.source (.copy src ext dst b)) :
    ∃ fs', (Command.copy src ext dst b).exec o fs = .ok fs' ∧ fs'.source = fs.source ∧
      ∀ q, fileAt fs'.package q =
        (attempt o fs.source q (.copy src ext dst b)).toList.foldl Copy.apply (fileAt fs.package q) := by
  simp only [exec, fileCopy, attempt]
  by_cases hd : o.dir src dst = true
  case pos =>
    simp only [hd, if_true]
    split
    case isTrue hns =>
      refine ⟨fs, rfl, rfl, fun q => ?_⟩
      cases rel? dst q
      case none   => rfl
      case some r => cases fs.source.lookup (src ++ r) <;> simp [hns, copyOf_nil]
    case isFalse => exact ⟨_, rfl, rfl, fun q => fileAt_foldl fs.source.nodupKeys⟩
  case neg =>
    simp only [hd]
    rcases hns : sysGlob fs.source src ext with _ | ⟨n, _ | ⟨m, ns⟩⟩
    case nil       => exact ⟨fs, rfl, rfl, fun _ => rfl⟩
    case cons.cons => simp [stops, hd, hns] at h
    case cons.nil  =>
      refine ⟨_, rfl, rfl, fun q => ?_⟩
      rw [fileAt_write]
      by_cases hq : q = dst
      case pos => simp [hq]
      case neg => simp [hq]

end Command

theorem lookup_unlink : (unlink d t).lookup p = if d <+: p then none else t.lookup p := by
  apply Option.ext
  intro node
  rw [←Option.mem_def, AList.mem_lookup_iff]
  split
  case isTrue h  => simp [unlink, h]
  case isFalse h =>
    have h : d.isPrefixOf p = false := by simpa [←List.isPrefixOf_iff_prefix] using h
    simp [unlink, h, ←AList.mem_lookup_iff]

-- Neither of the directories lies inside of the other.
def Apart (d src : Path) : Prop :=
  ¬d <+: src ∧ ¬src <+: d

instance : Decidable (Apart d src) :=
  inferInstanceAs (Decidable (_ ∧ _))

theorem Apart.not_prefix (h : Apart d src) : ¬d <+: src ++ r := by
  intro hd
  cases List.prefix_or_prefix_of_prefix hd (List.prefix_append src r)
  case inl hd => exact h.left hd
  case inr hd => exact h.right hd

theorem Apart.lookup_unlink (h : Apart d src) : (unlink d t).lookup (src ++ r) = t.lookup (src ++ r) := by
  rw [Install.lookup_unlink, if_neg h.not_prefix]

theorem Apart.sysGlob_unlink {ext : Name} (h : Apart d src) :
    sysGlob (unlink d t) src ext = sysGlob t src ext := by
  have hk : (unlink d t).keys = t.keys.filter (!d.isPrefixOf ·) := by
    simp only [AList.keys, unlink, List.keys, List.filter_map]
    rfl
  simp only [sysGlob, hk, List.filterMap_filter]
  congr 3
  funext p
  split
  case isTrue    => rfl
  case isFalse hd =>
    cases hr : rel? src p
    case none   => rfl
    case some r =>
      obtain rfl := rel?_eq_some.mp hr
      simp [h.not_prefix] at hd

-- The command does not read from the directory.
def Command.Spares (d : Path) : Command → Prop
  | copy src _ _ _ => Apart d src
  | unlink _       => True

theorem Command.Spares.attempt_eq {cmd : Command} (h : cmd.Spares d) :
    attempt o (Install.unlink d t) q cmd = attempt o t q cmd := by
  cases cmd
  case unlink => rfl
  case copy   =>
    have h : Apart _ _ := h
    simp only [attempt, h.sysGlob_unlink, fileAt, h.lookup_unlink]

theorem Command.Spares.stops_eq {cmd : Command} (h : cmd.Spares d) :
    stops o (Install.unlink d t) cmd = stops o t cmd := by
  cases cmd
  case unlink => rfl
  case copy   =>
    have h : Apart _ _ := h
    simp only [stops, h.sysGlob_unlink]

-- The commands that are executed before the script ends or stops.
def executed (o : Faults) (t : Tree) (cmds : List Command) : List Command :=
  cmds.takeWhile (!stops o t ·)

theorem executed_unlink {cmds : List Command} (h : ∀ cmd ∈ cmds, cmd.Spares d) :
    executed o (unlink d t) cmds = executed o t cmds := by
  simp only [executed]
  induction cmds
  case nil => rfl
  case cons cmd cmds hi =>
    obtain ⟨hc, h⟩ := List.forall_mem_cons.mp h
    rw [List.takeWhile_cons, List.takeWhile_cons, hc.stops_eq, hi h]

-- No command reads from a directory that has been removed before.
def Ordered (cmds : List Command) : Prop :=
  cmds.Pairwise fun cmd cmd' => ∀ d, cmd = .unlink d → cmd'.Spares d

-- A directory that `p` lies in is removed.
def Removes (cmds : List Command) (p : Path) : Prop :=
  ∃ d, .unlink d ∈ cmds ∧ d <+: p

-- What a script leaves behind, in terms of the file system it has found.
structure Executed (o : Faults) (fs : Fs) (cmds : List Command) (fs' : Fs) : Prop where
  removed : ∀ {p}, Removes cmds p → fs'.source.lookup p = none
  kept    : ∀ {p}, ¬Removes cmds p → fs'.source.lookup p = fs.source.lookup p
  package : ∀ q, fileAt fs'.package q =
    (cmds.filterMap (attempt o fs.source q)).foldl Copy.apply (fileAt fs.package q)

namespace Executed

variable {cmds : List Command} {fs₁ : Fs}

theorem nil : Executed o fs [] fs where
  removed h := by simp [Removes] at h
  kept _    := rfl
  package _ := rfl

theorem copy {ext : Name} (hs : fs₁.source = fs.source)
    (hp : ∀ q, fileAt fs₁.package q =
      (attempt o fs.source q (.copy src ext dst b)).toList.foldl Copy.apply (fileAt fs.package q))
    (h : Executed o fs₁ cmds fs') : Executed o fs (.copy src ext dst b :: cmds) fs' where
  removed hr := h.removed (by simpa [Removes] using hr)
  kept hr    := hs ▸ h.kept (by simpa [Removes] using hr)
  package q  := by
    rw [h.package, hp, hs, List.filterMap_cons]
    cases attempt o fs.source q (.copy src ext dst b) <;> rfl

theorem unlink (hs : ∀ cmd ∈ cmds, cmd.Spares d)
    (h : Executed o { fs with source := unlink d fs.source } cmds fs') :
    Executed o fs (.unlink d :: cmds) fs' where
  removed {p} hr := by
    by_cases hc : Removes cmds p
    case pos => exact h.removed hc
    case neg =>
      obtain ⟨d', hm, hd⟩ := hr
      obtain hm | hm := List.mem_cons.mp hm
      case inl =>
        cases hm
        rw [h.kept hc, lookup_unlink, if_pos hd]
      case inr => exact (hc ⟨d', hm, hd⟩).elim
  kept {p} hr := by
    have hd : ¬d <+: p := fun hd => hr ⟨d, List.mem_cons_self, hd⟩
    have hc : ¬Removes cmds p := fun ⟨d', hm, hd'⟩ => hr ⟨d', List.mem_cons_of_mem _ hm, hd'⟩
    rw [h.kept hc, lookup_unlink, if_neg hd]
  package q := by
    have he : cmds.filterMap (attempt o (Install.unlink d fs.source) q) =
        cmds.filterMap (attempt o fs.source q) :=
      List.filterMap_congr fun cmd hm => (hs cmd hm).attempt_eq
    rw [h.package, he]
    rfl

theorem run (h : Ordered cmds) :
    Executed o fs (executed o fs.source cmds) (outcome <| cmds.foldlM (Command.exec o) fs) := by
  induction cmds generalizing fs
  case nil => exact .nil
  case cons cmd cmds hi =>
    obtain ⟨hs, hc⟩ := List.pairwise_cons.mp h
    rw [List.foldlM_cons, executed, List.takeWhile_cons]
    split
    case isFalse hst =>
      rw [Command.exec_stop (by simpa using hst)]
      exact .nil
    case isTrue hst =>
      cases cmd
      case unlink d =>
        have hs cmd (hm : cmd ∈ cmds) : cmd.Spares d := hs cmd hm d rfl
        rw [←executed, ←executed_unlink hs]
        exact .unlink (fun cmd hm => hs cmd <| List.takeWhile_subset _ hm) <| hi hc
      case copy =>
        obtain ⟨fs₁, he, hs, hp⟩ := Command.exec_copy (by simpa using hst)
        rw [he, ←executed, ←hs]
        exact .copy hs hp <| hi hc

end Executed

-- The trees that the script installs, each with the directory that it is installed to.
def Env.trees (env : Env) : List (Path × Path) :=
  [(["inst", "include", "hv"], ["include", "hv"]),
    (["inst", "cares", "include"], ["include", "cares"]),
    (["inst", "cares", "lib"], env.libDir),
    (["inst", "ev", "include"], ["include", "ev"]),
    (["inst", "ev", "lib"], env.libDir),
    (["inst", "lib"], env.libDir)]

-- Each file of the trees is at its destination, or still where it was.
def Lossless (env : Env) (o : Faults) (fs : Fs) : Prop :=
  ∀ src dst, (src, dst) ∈ env.trees → ∀ n r c, fileAt fs.source (src ++ n :: r) = some c →
    fileAt (installLibs env o fs).package (dst ++ n :: r) = some c ∨
    fileAt (installLibs env o fs).source (src ++ n :: r) = some c

theorem script_ordered (env : Env) : Ordered env.script := by
  simp [Ordered, Env.script, Env.copyFiles, Env.copyAndCleanup, Env.baseDir, Command.Spares, Apart]

-- No file is lost exactly if the copies that are made to the destination of each file whose tree is
-- removed leave its contents there.
theorem installLibs_lossless_iff (env : Env) (o : Faults) (fs : Fs) :
    Lossless env o fs ↔
      ∀ src dst, (src, dst) ∈ env.trees → ∀ n r c, fileAt fs.source (src ++ n :: r) = some c →
        Removes (executed o fs.source env.script) (src ++ n :: r) →
        Delivers c (fileAt fs.package (dst ++ n :: r))
          ((executed o fs.source env.script).filterMap (attempt o fs.source (dst ++ n :: r))) := by
  have h : Executed o fs _ _ := .run <| script_ordered env
  constructor
  case mp =>
    intro hl src dst ht n r c hc hr
    rw [←foldl_apply_iff, ←h.package]
    refine (hl src dst ht n r c hc).resolve_right fun hk => ?_
    have : fileAt (installLibs env o fs).source (src ++ n :: r) = none := by
      simp [fileAt, installLibs, h.removed hr]
    simp [this] at hk
  case mpr =>
    intro hd src dst ht n r c hc
    by_cases hr : Removes (executed o fs.source env.script) (src ++ n :: r)
    case pos =>
      refine .inl ?_
      rw [installLibs, h.package, foldl_apply_iff]
      exact hd src dst ht n r c hc hr
    case neg =>
      refine .inr ?_
      simpa [fileAt, installLibs, h.kept hr] using hc

-- A library whose copy fails, as on a full disk, is removed all the same.
def fullDisk : Faults :=
  { Faults.none with copy _ d := if d = ["libs", "libhv.a"] then .truncated 1 else .done }

def built : Fs where
  source  := .insert ["inst", "lib"] .dir <| .insert ["inst", "lib", "libhv.a"] (.file [33, 60]) <|
    .insert ["src", "Rlibhv.so"] (.file [127]) ∅
  package := ∅

theorem built_library_lost : fileAt built.source ["inst", "lib", "libhv.a"] = some [33, 60] ∧
    fileAt (installLibs ⟨[], ".so"⟩ fullDisk built).package ["libs", "libhv.a"] = some [33] ∧
    fileAt (installLibs ⟨[], ".so"⟩ fullDisk built).source ["inst", "lib", "libhv.a"] = none ∧
    ¬Lossless ⟨[], ".so"⟩ fullDisk built := by
  have hb : fileAt built.source ["inst", "lib", "libhv.a"] = some [33, 60] := by decide +kernel
  have hp : fileAt (installLibs ⟨[], ".so"⟩ fullDisk built).package ["libs", "libhv.a"] = some [33] := by
    decide +kernel
  have hs : fileAt (installLibs ⟨[], ".so"⟩ fullDisk built).source ["inst", "lib", "libhv.a"] = none := by
    decide +kernel
  refine ⟨hb, hp, hs, fun hl => ?_⟩
  have h := hl ["inst", "lib"] ["libs"] (by simp [Env.trees, Env.libDir]) "libhv.a" [] _ hb
  simp only [List.cons_append, List.nil_append, hp, hs] at h
  simp at h

end Rlibhv.Install
