import AuroraOS.VfsService
import Mathlib.Data.List.TakeWhile

/-!
# Paths on their way to the file service

`VfsManager::mount`, `unmount` and `open` of `vfs/vfs.cpp` copy at most 63 characters of a path into
the request, and the server looks at the copy. A path in the mount table has at most 31 characters,
because the server refuses longer ones, so mounting and unmounting do the same with the copy as they
would with the whole path. `open` does not: a longer path is opened under its first 63 characters.
`paths_reach_server` says for which paths this makes no difference.
-/

namespace AuroraOS.Vfs

open List

variable {World : Type}

variable {s : VfsState World} {path : List Char}

/-! ## Resolution -/

/-- The virtual node and the path that a path denotes, whatever its length. -/
def VfsState.resolve (s : VfsState World) (path : List Char) : Option (Nat × List Char) :=
  if hasTraversal true path then none
  else (s.findMount path).1.map fun target => (target, relativePath path (s.findMount path).2)

theorem VfsState.resolve_eq_some_iff {relative : List Char} {target : Nat} :
    s.resolve path = some (target, relative) ↔ hasTraversal true path = false ∧
      (s.findMount path).1 = some target ∧ relativePath path (s.findMount path).2 = relative := by
  unfold resolve
  by_cases hdots : hasTraversal true path = true
  · simp [hdots]
  · cases h : (s.findMount path).1 <;> simp [hdots]

/-- A mount point lies on a path. -/
def OnPath (m path : List Char) : Prop :=
  startsWith m path > 0 ∧ (path[startsWith m path]? = none ∨ path[startsWith m path]? = some '/' ∨
    m[startsWith m path - 1]? = some '/')

/-- The components of a path. -/
def components (path : List Char) : List (List Char) := path.splitOn '/'

/-- A mount point is the path, or a prefix of it that ends where a component does. -/
def Covers (m path : List Char) : Prop :=
  m <+: path ∧ (m = path ∨ path[m.length]? = some '/' ∨ m.getLast? = some '/')
  deriving Decidable

/-- The longest mount point that covers a path, the earliest of several. -/
def VfsServer.deepest (server : VfsServer) (path : List Char) : Option (List Char × Nat) :=
  (server.mounts.filter fun m => m.1 ≠ [] ∧ Covers m.1 path).argmax (·.1.length)

theorem onPath_iff (m path : List Char) : OnPath m path ↔ m ≠ [] ∧ Covers m path := by
  unfold OnPath Covers startsWith
  by_cases hm : m <+: path
  · have hend : path[m.length]? = none ↔ m = path := by
      rw [getElem?_eq_none_iff]
      exact ⟨hm.eq_of_length_le, fun h => h ▸ le_rfl⟩
    simp only [hm, if_true, hend, ← getLast?_eq_getElem?, length_pos_iff, true_and]
  · simp [hm]

theorem mountRound_eq (acc : Option Nat × Nat) (m : List Char × Nat) :
    VfsState.mountRound path acc m =
    if (m.1 ≠ [] ∧ Covers m.1 path) ∧ acc.2 < m.1.length then (some m.2, m.1.length) else acc := by
  by_cases hm : m.1 <+: path
  · have hlen : startsWith m.1 path = m.1.length := if_pos hm
    have hon := onPath_iff m.1 path
    simp only [OnPath] at hon
    simp only [VfsState.mountRound]
    grind
  · simp [VfsState.mountRound, startsWith, Covers, hm]

/-- The loop over the mount points finds the deepest. -/
theorem VfsState.findMount_eq (s : VfsState World) (path : List Char) :
    s.findMount path = ((s.server.deepest path).map (·.2),
      ((s.server.deepest path).map (·.1.length)).getD 0) := by
  unfold VfsServer.deepest argmax
  rw [foldl_filter]
  refine @List.foldl_hom _ _ _
    (fun o : Option (List Char × Nat) => (o.map (·.2), (o.map (·.1.length)).getD 0)) _
    (mountRound path)
    _ none fun o m => ?_
  rw [mountRound_eq]
  by_cases hm : m.1 ≠ [] ∧ Covers m.1 path
  · cases o <;> simp [hm, argAux]
    split_ifs <;> simp
  · simp [hm]

/-- If one mount point at most lies on a path, its first entry is found. -/
theorem VfsState.findMount_of_only {q : List Char}
    (honly : ∀ m ∈ s.server.mounts, OnPath m.1 path ↔ m.1 = q) :
    s.findMount path = match s.server.mounts.find? fun m => m.1 = q with
      | some m => (some m.2, startsWith q path)
      | none => (none, 0) := by
  have hfilter : (s.server.mounts.filter fun m => m.1 ≠ [] ∧ Covers m.1 path) =
      s.server.mounts.filter fun m => m.1 = q := by
    refine filter_congr fun m hm => ?_
    simp only [← onPath_iff, honly m hm]
  rw [findMount_eq, VfsServer.deepest, hfilter, ← head?_filter]
  cases hl : s.server.mounts.filter fun m => m.1 = q with
  | nil => rfl
  | cons m l =>
    have hq : ∀ x ∈ m :: l, x ∈ s.server.mounts ∧ x.1 = q := by
      intro x hx
      simpa [← hl] using hx
    have hfirst : (m :: l).argmax (·.1.length) = some m := by
      rw [argmax_cons]
      cases hbest : l.argmax (·.1.length) with
      | none => rfl
      | some x =>
        have hsame := (hq x (by simp [argmax_mem hbest])).2
        simp [(hq m (by simp)).2, hsame]
    obtain ⟨hm, rfl⟩ := hq m (by simp)
    obtain ⟨-, hprefix, -⟩ := (onPath_iff m.1 path).mp ((honly m hm).mpr rfl)
    simp [hfirst, startsWith, hprefix]

/-- The paths fit into `MountPoint::path`. -/
def VfsServer.Stored (server : VfsServer) : Prop := ∀ m ∈ server.mounts, m.1.length ≤ 31

theorem VfsServer.Stored.mount (h : s.server.Stored) (path : List Char) (vnode : Nat) :
    (s.mount path vnode).2.server.Stored := by
  unfold VfsState.mount
  split_ifs with hbad
  · exact h
  · intro m hm
    rcases mem_append.mp hm with hm | hm
    · exact h m hm
    · obtain rfl := mem_singleton.mp hm
      simp only [not_or, not_lt] at hbad
      exact hbad.2.1

/-! ## The client side -/

/-- `strncpy(dest, path, 63)` into a field of 64 zeros. -/
def copyPath (path : List Char) : List Char := path.take 63

namespace VfsState

/-- The request has been served: what `call_vfs` returns. -/
def callVfs (vn : Vnodes World) (req : VfsRequest) (s : VfsState World) : Int × VfsState World :=
  let (reply, s) := processRequest vn req ⟨-1, fun _ => 0⟩ s
  (reply.status, s)

/-- `VfsManager::mount`. If the direct call fails and there is a service endpoint, the server gets a
request; until then, the other tasks make `meanwhile` of the state. -/
def managerMount (vn : Vnodes World) (endpoint : Bool) (meanwhile : VfsState World → VfsState World)
    (path : List Char) (vnode : Nat) (s : VfsState World) : Bool × VfsState World :=
  if vnode = 0 then (false, s)
  else if (s.mount path vnode).1 then (true, (s.mount path vnode).2)
  else if endpoint then
    let (status, s) := callVfs vn (.mount (copyPath path) vnode) (meanwhile s)
    (status = 0, s)
  else (false, s)

/-- `VfsManager::unmount`. -/
def managerUnmount (vn : Vnodes World) (endpoint : Bool)
    (meanwhile : VfsState World → VfsState World) (path : List Char) (s : VfsState World) :
    Bool × VfsState World :=
  if (s.unmount path).1 then (true, (s.unmount path).2)
  else if endpoint then
    let (status, s) := callVfs vn (.unmount (copyPath path)) (meanwhile s)
    (status = 0, s)
  else (false, s)

/-- `VfsManager::open`, with or without a service endpoint. -/
def managerOpen (vn : Vnodes World) (path : List Char) (flags : Int) (s : VfsState World) :
    Int × VfsState World :=
  callVfs vn (VfsCall.open path flags).request s

end VfsState

/-! ## Mount points of long paths -/

theorem startsWith_copyPath {m : List Char} (hm : m.length ≤ 31) (path : List Char) :
    startsWith m (copyPath path) = startsWith m path := by
  have hiff : m <+: copyPath path ↔ m <+: path := by
    simp only [prefix_iff_eq_take, copyPath, take_take]
    rw [min_eq_left (by omega)]
  simp only [startsWith, hiff]

/-- The table does not tell the copy from the path. -/
theorem VfsState.findMount_copyPath (h : s.server.Stored) (path : List Char) :
    s.findMount (copyPath path) = s.findMount path := by
  apply foldl_ext
  intro acc m hm
  have hlen : startsWith m.1 path ≤ 31 := by
    unfold startsWith
    split_ifs
    · exact h m hm
    · omega
  have hchar : (copyPath path)[startsWith m.1 path]? = path[startsWith m.1 path]? :=
    getElem?_take_of_lt (by omega)
  simp only [mountRound, startsWith_copyPath (h m hm), hchar]

/-- A mount point is found at a prefix of at most 31 characters. -/
theorem VfsState.findMount_le (h : s.server.Stored) (path : List Char) :
    (s.findMount path).2 ≤ 31 := by
  refine Run.foldl_invariant (P := fun acc : Option Nat × Nat => acc.2 ≤ 31) ?_ (Nat.zero_le 31)
  intro acc m hm hacc
  unfold mountRound
  dsimp only
  split_ifs
  · unfold startsWith
    split_ifs
    · exact h m hm
    · exact Nat.zero_le 31
  · exact hacc

/-! ## Slashes at the end -/

/-- Only slashes. -/
def Slashes (l : List Char) : Prop := ∀ c ∈ l, c = '/'

theorem dropWhile_eq_nil (l : List Char) : l.dropWhile (· = '/') = [] ↔ Slashes l := by
  simp [Slashes]

theorem dropWhile_ne_slash (l : List Char) : l.dropWhile (· = '/') ≠ ['/'] := by
  intro heq
  have hhead := head?_dropWhile_not (fun c : Char => decide (c = '/')) l
  simp [heq] at hhead

/-- The relative path shows whether something was cut off. -/
theorem relativePath_copyPath_iff (hlong : 63 < path.length) {n : Nat} (hn : n ≤ 31) :
    relativePath (copyPath path) n = relativePath path n ↔ Slashes (path.drop n) := by
  have hrest : path.drop 63 ≠ [] := by
    intro hnil
    have := drop_eq_nil_iff.mp hnil
    omega
  have hsplit : path.drop n = (copyPath path).drop n ++ path.drop 63 := by
    conv_lhs => rw [← take_append_drop 63 path]
    rw [drop_append_of_le_length (by simp; omega)]
    rfl
  rw [relativePath, relativePath, hsplit, ← dropWhile_eq_nil, dropWhile_append]
  generalize (copyPath path).drop n = a
  by_cases ha : a.dropWhile (· = '/') = []
  · -- the copy ends in slashes: it shows in what follows whether it was the end
    simp only [ha, isEmpty_nil, if_true]
    split_ifs with hr
    · simp [hr]
    · exact iff_of_false (dropWhile_ne_slash _).symm hr
  · simp [ha, hrest]

theorem hasTraversal_slashes {l : List Char} (hslash : Slashes l) (first : Bool) :
    hasTraversal first l = false := by
  induction l generalizing first with
  | nil => rfl
  | cons c l ih =>
    obtain rfl := hslash c (by simp)
    rw [hasTraversal, ih (fun c hc => hslash c (by simp [hc]))]
    simp [parentHere]

theorem parentHere_cons (c d e : Char) (l : List Char) :
    parentHere (c :: d :: e :: l) = decide (c = '.' ∧ d = '.' ∧ e = '/') := by
  by_cases hc : c = '.'
  · by_cases hd : d = '.'
    · by_cases he : e = '/'
      · simp [hc, hd, he, parentHere]
      · simp [parentHere, he]
    · simp [parentHere, hd]
  · simp [parentHere, hc]

theorem parentHere_append (c : Char) (a : List Char) {l : List Char} (hl : l ≠ [])
    (hslash : Slashes l) : parentHere (c :: (a ++ l)) = parentHere (c :: (a ++ ['/'])) := by
  obtain ⟨d, l, rfl⟩ := exists_cons_of_ne_nil hl
  obtain rfl := hslash d (by simp)
  match a with
  | [] => simp [parentHere]
  | [b] => simp [parentHere_cons]
  | b :: e :: a => simp [parentHere_cons]

/-- More slashes at the end make no component `..`. -/
theorem hasTraversal_append (a : List Char) {l : List Char} (hl : l ≠ []) (hslash : Slashes l)
    (first : Bool) : hasTraversal first (a ++ l) = hasTraversal first (a ++ ['/']) := by
  induction a generalizing first with
  | nil => rw [nil_append, hasTraversal_slashes hslash, hasTraversal_slashes (by simp [Slashes])]
  | cons c a ih =>
    rw [cons_append, cons_append, hasTraversal, hasTraversal, ih,
      parentHere_append c a hl hslash]

/-! ## Components -/

theorem components_cons (c : Char) (path : List Char) : components (c :: path) =
    if c = '/' then [] :: components path else (components path).modifyHead (c :: ·) := by
  simp [components, splitOn, splitOnP_cons_eq_if_modifyHead]

theorem components_nil : components [] = [[]] := splitOn_nil '/'

theorem parentHere_iff (path : List Char) :
    parentHere path = true ↔ (components path).head? = some ['.', '.'] := by
  match path with
  | [] => simp [parentHere, components_nil]
  | [a] =>
    simp only [parentHere, components_cons, components_nil]
    split_ifs <;> simp
  | [a, b] =>
    simp only [components_cons, components_nil]
    by_cases hdots : a = '.' ∧ b = '.'
    · simp [hdots, parentHere]
    · have hnot : parentHere [a, b] = false := by
        unfold parentHere
        grind
      split_ifs <;> simp_all
  | a :: b :: c :: l =>
    simp only [parentHere_cons, components_cons]
    cases components l <;> grind

theorem hasTraversal_iff (first : Bool) (path : List Char) : hasTraversal first path = true ↔
    ['.', '.'] ∈ if first then components path else (components path).tail := by
  induction path generalizing first with
  | nil => cases first <;> simp [hasTraversal, components]
  | cons c path ih =>
    have htail : hasTraversal (c = '/') path = true ↔
        ['.', '.'] ∈ (components (c :: path)).tail := by
      rw [ih, components_cons]
      by_cases hc : c = '/' <;> simp [hc]
    rw [hasTraversal, Bool.or_eq_true, htail, Bool.and_eq_true, parentHere_iff]
    cases first with
    | false => simp
    | true => cases components (c :: path) <;> simp [eq_comm]

/-! ## What reaches the server -/

/-- The first 63 characters of a path that ends in slashes. -/
theorem hasTraversal_copyPath (hlong : 63 < path.length) {n : Nat} (hn : n ≤ 31)
    (hslash : Slashes (path.drop n)) :
    hasTraversal true (copyPath path) = hasTraversal true path := by
  have hcopy : copyPath path = path.take n ++ (path.drop n).take (63 - n) := by
    rw [copyPath, ← take_add, Nat.add_sub_cancel' (by omega)]
  have hne : path.drop n ≠ [] := by
    intro hnil
    have := drop_eq_nil_iff.mp hnil
    omega
  have hne' : (path.drop n).take (63 - n) ≠ [] := by
    simp only [ne_eq, take_eq_nil_iff, not_or]
    exact ⟨by omega, hne⟩
  have hslash' : Slashes ((path.drop n).take (63 - n)) := by
    intro c hc
    exact hslash c (mem_of_mem_take hc)
  calc hasTraversal true (copyPath path)
      = hasTraversal true (path.take n ++ ['/']) := by
        rw [hcopy, hasTraversal_append _ hne' hslash']
    _ = hasTraversal true (path.take n ++ path.drop n) :=
      (hasTraversal_append _ hne hslash true).symm
    _ = hasTraversal true path := by rw [take_append_drop]

namespace VfsState

variable {vn : Vnodes World} {s : VfsState World} {path : List Char} {flags : Int}
  {meanwhile : VfsState World → VfsState World}

/-- `handle_open` refuses long paths and resolves the others. -/
theorem handleOpen_eq (vn : Vnodes World) (s : VfsState World) (path : List Char) (flags : Int) :
    s.handleOpen vn path flags =
      if path.length > 63 then (-1, s)
      else
        match s.resolve path with
        | none => (-1, s)
        | some (target, relative) => s.openAt vn target relative flags := by
  unfold handleOpen resolve
  by_cases hlen : path.length > 63
  · simp [hlen]
  · by_cases hdots : hasTraversal true path = true
    · simp [hlen, hdots]
    · rcases hmount : s.findMount path with ⟨_ | target, n⟩
      · simp [hlen, hdots]
      · simp only [hlen, hdots]
        rfl

/-- What `handle_open` has done when it returns a descriptor. -/
theorem handleOpen_resolved (h : 0 ≤ (s.handleOpen vn path flags).1) :
    path.length ≤ 63 ∧ ∃ target relative, s.resolve path = some (target, relative) ∧
      (s.handleOpen vn path flags).2.calls = s.calls ++ [.openFile target relative flags] := by
  rw [handleOpen_eq] at h ⊢
  by_cases hlen : path.length > 63
  · simp [hlen] at h
  · refine ⟨not_lt.mp hlen, ?_⟩
    cases hresolve : s.resolve path with
    | none => simp [hresolve] at h
    | some found =>
      refine ⟨found.1, found.2, rfl, ?_⟩
      simp only [hresolve] at h ⊢
      unfold openAt at h ⊢
      cases hfd : (range maxOpenFiles).find? fun fd => !(s.server.fdTable fd).used with
      | none => simp [hfd] at h
      | some fd =>
        dsimp only
        split_ifs <;> rfl

theorem managerOpen_eq (vn : Vnodes World) (s : VfsState World) (path : List Char) (flags : Int) :
    s.managerOpen vn path flags = s.handleOpen vn (copyPath path) flags := rfl

theorem callVfs_mount_copyPath (vnode : Nat) :
    s.callVfs vn (.mount (copyPath path) vnode) = s.callVfs vn (.mount path vnode) := by
  by_cases hlong : 63 < path.length
  · have hcopy : (copyPath path).length > 31 := by
      simp only [copyPath, length_take]
      omega
    have hpath : path.length > 31 := by omega
    simp [callVfs, processRequest, mount, hcopy, hpath]
  · rw [copyPath, take_of_length_le (by omega)]

theorem callVfs_unmount_copyPath (hs : s.server.Stored) :
    s.callVfs vn (.unmount (copyPath path)) = s.callVfs vn (.unmount path) := by
  by_cases hlong : 63 < path.length
  · have hnone : ∀ p : List Char, 31 < p.length →
        (s.server.mounts.any fun m => m.1 = p) = false := by
      intro p hp
      rw [any_eq_false]
      intro m hm heq
      have hle := hs m hm
      rw [of_decide_eq_true heq] at hle
      omega
    have hcopy : 31 < (copyPath path).length := by
      simp only [copyPath, length_take]
      omega
    simp [callVfs, processRequest, unmount, hnone _ hcopy, hnone path (by omega)]
  · rw [copyPath, take_of_length_le (by omega)]

/-- A descriptor for a path that was cut short is right only if nothing but slashes was cut off. -/
theorem managerOpen_iff (hs : s.server.Stored) (hopen : 0 ≤ (s.managerOpen vn path flags).1) :
    (∃ target relative, s.resolve path = some (target, relative) ∧
        (s.managerOpen vn path flags).2.calls = s.calls ++ [.openFile target relative flags]) ↔
      path.length ≤ 63 ∨ Slashes (path.drop (s.findMount path).2) := by
  rw [managerOpen_eq] at hopen ⊢
  obtain ⟨-, target, relative, hresolve, hcalls⟩ := handleOpen_resolved hopen
  rcases Nat.lt_or_ge 63 path.length with hlong | hshort
  · have hn := findMount_le hs path
    rw [resolve_eq_some_iff, findMount_copyPath hs] at hresolve
    obtain ⟨hdots, htarget, hrelative⟩ := hresolve
    constructor
    · intro h
      obtain ⟨target', relative', hresolve', hcalls'⟩ := h
      obtain ⟨-, -, hrelative'⟩ := resolve_eq_some_iff.mp hresolve'
      -- the same call, so the same relative path
      have hsame : relative = relative' := by
        have := append_cancel_left (hcalls.symm.trans hcalls')
        simp only [cons.injEq, VnodeCall.openFile.injEq, and_true] at this
        exact this.2
      refine .inr ((relativePath_copyPath_iff hlong hn).mp ?_)
      rw [hrelative, hrelative', hsame]
    · intro h
      have hslash := h.resolve_left (by omega)
      refine ⟨target, relative, resolve_eq_some_iff.mpr ⟨?_, htarget, ?_⟩, hcalls⟩
      · rw [← hasTraversal_copyPath hlong hn hslash, hdots]
      · rw [← hrelative, (relativePath_copyPath_iff hlong hn).mpr hslash]
  · have hcopy : copyPath path = path := take_of_length_le hshort
    rw [hcopy] at hresolve
    exact iff_of_true ⟨target, relative, hresolve, hcalls⟩ (.inl hshort)

/-- A path is mounted as a whole or not at all. -/
theorem managerMount_mounts {endpoint : Bool}
    {vnode : Nat} (h : (s.managerMount vn endpoint meanwhile path vnode).1 = true) :
    ∃ t, (t = s ∨ t = meanwhile s) ∧
    (s.managerMount vn endpoint meanwhile path vnode).2.server.mounts =
      t.server.mounts ++ [(path, vnode)] := by
  have hmount : ∀ t : VfsState World, (t.mount path vnode).1 = true →
      (t.mount path vnode).2.server.mounts = t.server.mounts ++ [(path, vnode)] := by
    intro t ht
    unfold mount at ht ⊢
    split_ifs at ht ⊢
    rfl
  unfold managerMount at h ⊢
  by_cases hnull : vnode = 0
  · simp [hnull] at h
  · rw [if_neg hnull] at h ⊢
    by_cases hdirect : (s.mount path vnode).1 = true
    · rw [if_pos hdirect]
      exact ⟨s, .inl rfl, hmount s hdirect⟩
    · rw [if_neg hdirect] at h ⊢
      cases endpoint with
      | false => simp at h
      | true =>
        rw [callVfs_mount_copyPath] at h ⊢
        refine ⟨meanwhile s, .inr rfl, hmount _ ?_⟩
        simpa [callVfs, processRequest, withStatus] using h

/-- The entry that is removed is the first one at the whole path. -/
theorem managerUnmount_unmounts {endpoint : Bool}
    (hs : (meanwhile s).server.Stored)
    (h : (s.managerUnmount vn endpoint meanwhile path).1 = true) :
    ∃ t, (t = s ∨ t = meanwhile s) ∧ (∃ m ∈ t.server.mounts, m.1 = path) ∧
      (s.managerUnmount vn endpoint meanwhile path).2.server.mounts =
        t.server.mounts.eraseP fun m => m.1 = path := by
  have hunmount : ∀ t : VfsState World, (t.unmount path).1 = true →
      (∃ m ∈ t.server.mounts, m.1 = path) ∧ (t.unmount path).2.server.mounts =
        t.server.mounts.eraseP fun m => m.1 = path := by
    intro t ht
    unfold unmount at ht ⊢
    split_ifs at ht ⊢ with hany
    exact ⟨by simpa using hany, rfl⟩
  unfold managerUnmount at h ⊢
  by_cases hdirect : (s.unmount path).1 = true
  · rw [if_pos hdirect]
    exact ⟨s, .inl rfl, hunmount s hdirect⟩
  · rw [if_neg hdirect] at h ⊢
    cases endpoint with
    | false => simp at h
    | true =>
      rw [callVfs_unmount_copyPath hs] at h ⊢
      refine ⟨meanwhile s, .inr rfl, hunmount _ ?_⟩
      simpa [callVfs, processRequest, withStatus] using h

/-- **Mounting and unmounting act on the whole path; a descriptor is for the file that the whole
path denotes exactly if the path has at most 63 characters or ends in slashes from the mount point
on.** -/
theorem paths_reach_server (vn : Vnodes World) {s : VfsState World} (hs : s.server.Stored)
    (path : List Char) (flags : Int) :
    (0 ≤ (s.managerOpen vn path flags).1 →
      ((∃ target relative, s.resolve path = some (target, relative) ∧
          (s.managerOpen vn path flags).2.calls = s.calls ++ [.openFile target relative flags]) ↔
        path.length ≤ 63 ∨ Slashes (path.drop (s.findMount path).2))) ∧
    (∀ endpoint meanwhile vnode, (s.managerMount vn endpoint meanwhile path vnode).1 = true →
      ∃ t, (t = s ∨ t = meanwhile s) ∧
        (s.managerMount vn endpoint meanwhile path vnode).2.server.mounts =
          t.server.mounts ++ [(path, vnode)]) ∧
    ∀ endpoint meanwhile, (meanwhile s).server.Stored →
      (s.managerUnmount vn endpoint meanwhile path).1 = true →
      ∃ t, (t = s ∨ t = meanwhile s) ∧ (∃ m ∈ t.server.mounts, m.1 = path) ∧
        (s.managerUnmount vn endpoint meanwhile path).2.server.mounts =
          t.server.mounts.eraseP fun m => m.1 = path :=
  ⟨managerOpen_iff hs, fun _ _ _ h => managerMount_mounts h,
    fun _ _ hmeanwhile h => managerUnmount_unmounts hmeanwhile h⟩

/-- A server with one node, mounted at `/`, and files that open. -/
def oneMount : VfsState Unit where
  server := ⟨[(['/'], 7)], fun _ => ⟨0, 0, false, 0⟩⟩
  world := ()
  calls := []

/-- Every method succeeds. -/
def obliging : Vnodes Unit := fun w _ => (⟨0, [], 0⟩, w)

theorem paths_reach_server_short : (oneMount.managerOpen obliging ['/', 'a'] 0).1 = 0 ∧
    ∃ target relative, oneMount.resolve ['/', 'a'] = some (target, relative) ∧
      (oneMount.managerOpen obliging ['/', 'a'] 0).2.calls = [.openFile target relative 0] := by
  refine ⟨by decide, ?_⟩
  have hstored : oneMount.server.Stored := by simp [VfsServer.Stored, oneMount]
  exact ((paths_reach_server obliging hstored ['/', 'a'] 0).1 (by decide)).mpr (.inl (by decide))

/-- A path of 71 characters is opened under its first 63. -/
theorem long_path_opened : (oneMount.managerOpen obliging ('/' :: List.replicate 70 'x') 0).1 = 0 ∧
    (oneMount.managerOpen obliging ('/' :: List.replicate 70 'x') 0).2.calls =
      [.openFile 7 (List.replicate 62 'x') 0] ∧
    oneMount.resolve ('/' :: List.replicate 70 'x') = some (7, List.replicate 70 'x') := by
  decide +kernel

/-! ## Opening -/

/-- `handle_open` fails here if there is no descriptor, or the node's `open_file` fails. The
descriptor is free again then. -/
theorem openAt_neg (vn : Vnodes World) (s : VfsState World) (target : Nat) (relative : List Char)
    (flags : Int) :
    ((s.openAt vn target relative flags).1 < 0 ↔ (∀ fd < maxOpenFiles, (s.server.fdTable fd).used) ∨
      (vn s.world (.openFile target relative flags)).1.value < 0) ∧
    ((s.openAt vn target relative flags).1 < 0 → ∀ fd,
      ((s.openAt vn target relative flags).2.server.fdTable fd).used =
      (s.server.fdTable fd).used) := by
  unfold openAt
  cases hfd : (range maxOpenFiles).find? fun fd => !(s.server.fdTable fd).used with
  | none =>
    have hall : ∀ fd < maxOpenFiles, (s.server.fdTable fd).used := by simpa using hfd
    simpa using Or.inl hall
  | some fd =>
    have hfree : (s.server.fdTable fd).used = false := by simpa using find?_some hfd
    have hlt : fd < maxOpenFiles := by simpa using mem_of_find?_eq_some hfd
    have hnot : ¬∀ fd < maxOpenFiles, (s.server.fdTable fd).used := by
      intro hall
      simp [hall fd hlt] at hfree
    simp only [callVnode, hnot]
    by_cases hfail : (vn s.world (.openFile target relative flags)).1.value < 0
    · simp only [hfail]
      refine ⟨by simp, fun _ fd' => ?_⟩
      by_cases heq : fd' = fd
      · simp [heq, setFd, hfree]
      · simp [heq, setFd]
    · simp [hfail]

/-- **How a path is opened.** One with a component `..` is refused. Any other is opened below the
deepest mount point that covers it, and this fails exactly if there is none, no descriptor is free,
or the node refuses. A call that fails takes no descriptor. -/
theorem handleOpen_resolves (vn : Vnodes World) (s : VfsState World) (path : List Char)
    (hlen : path.length ≤ 63) (flags : Int) :
    (['.', '.'] ∈ components path → s.handleOpen vn path flags = (-1, s)) ∧
    (['.', '.'] ∉ components path → ∀ m ∈ s.server.deepest path, s.handleOpen vn path flags =
      s.openAt vn m.2 (relativePath path m.1.length) flags) ∧
    ((s.handleOpen vn path flags).1 < 0 ↔ ['.', '.'] ∈ components path ∨
      (∀ m ∈ s.server.mounts, m.1 ≠ [] → ¬Covers m.1 path) ∨
      (∀ fd < maxOpenFiles, (s.server.fdTable fd).used) ∨ ∃ m ∈ s.server.deepest path,
        (vn s.world (.openFile m.2 (relativePath path m.1.length) flags)).1.value < 0) ∧
    ((s.handleOpen vn path flags).1 < 0 → ∀ fd,
      ((s.handleOpen vn path flags).2.server.fdTable fd).used = (s.server.fdTable fd).used) := by
  rw [handleOpen_eq, if_neg (not_lt.mpr hlen)]
  have hdots := hasTraversal_iff true path
  unfold resolve
  by_cases hin : ['.', '.'] ∈ components path
  · simp [hdots.mpr hin, hin]
  · rw [if_neg (mt hdots.mp hin), findMount_eq]
    cases hdeep : s.server.deepest path with
    | none =>
      have hnone : ∀ m ∈ s.server.mounts, m.1 ≠ [] → ¬Covers m.1 path := by
        simpa [VfsServer.deepest, filter_eq_nil_iff] using hdeep
      exact ⟨(absurd · hin), by simp, iff_of_true (by simp) (.inr (.inl hnone)), by simp⟩
    | some m =>
      have hsome : ¬∀ m ∈ s.server.mounts, m.1 ≠ [] → ¬Covers m.1 path := by
        intro hnone
        have hmem := mem_filter.mp (argmax_mem hdeep)
        simp only [decide_eq_true_eq] at hmem
        exact hnone m hmem.1 hmem.2.1 hmem.2.2
      obtain ⟨hneg, hused⟩ := openAt_neg vn s m.2 (relativePath path m.1.length) flags
      refine ⟨(absurd · hin), by simp, hneg.trans ?_, hused⟩
      simp only [hin, hsome, false_or, Option.mem_some_iff, exists_eq_left']

/-- A second node, mounted below the first. -/
def twoMounts : VfsState Unit := (oneMount.mount ['/', 'a'] 8).2

theorem handleOpen_resolves_nested :
    twoMounts.handleOpen obliging ['/', 'a', '/', 'b'] 0 = twoMounts.openAt obliging 8 ['b'] 0 ∧
      twoMounts.handleOpen obliging ['/', 'a', 'b'] 0 = twoMounts.openAt obliging 7 ['a', 'b'] 0 :=
  ⟨(handleOpen_resolves obliging twoMounts ['/', 'a', '/', 'b'] (by decide) 0).2.1 (by decide)
      (['/', 'a'], 8) (by decide),
    (handleOpen_resolves obliging twoMounts ['/', 'a', 'b'] (by decide) 0).2.1 (by decide)
      (['/'], 7) (by decide)⟩

/-- A node can be mounted at the empty path, a prefix of `/a` that ends at a boundary. It is not
found. -/
theorem empty_mount_lost :
    let s := ({ oneMount with server := ⟨[], oneMount.server.fdTable⟩ }).mount [] 7
    s.1 = true ∧ Covers [] ['/', 'a'] ∧ (s.2.handleOpen obliging ['/', 'a'] 0).1 = -1 ∧
      ['.', '.'] ∉ components ['/', 'a'] := by
  decide

end VfsState

/-! ## The lengths of copies -/

/-- The two values of `VFS_IPC_BUFFER_SIZE`. -/
inductive Board
  | nucleoL031K6
  | other

def Board.bufferSize : Board → Nat
  | nucleoL031K6 => 128
  | other => 1024

/-- `bufferLen` for a board. -/
def Board.serverLen (b : Board) (len : Int) : Int :=
  if len < 0 ∨ len > b.bufferSize then b.bufferSize else len

namespace VfsState

/-- `VfsManager::read` on a board: the result, and the bytes copied to the buffer. -/
def managerRead (b : Board) (vn : Vnodes World) (fd len : Int) (s : VfsState World) :
    (Int × List UInt8) × VfsState World :=
  let (reply, s) := s.handleRead vn fd (b.serverLen (requestLen len)) fun _ => 0
  ((reply.status, (VfsCall.read fd len).copyOut reply), s)

theorem bufferLen_serverLen (b : Board) (len : Int) :
    bufferLen (b.serverLen len) = b.serverLen len := by
  cases b <;> simp only [bufferLen, Board.serverLen, Board.bufferSize, vfsIpcBufferSize] <;> grind

end VfsState

end AuroraOS.Vfs
