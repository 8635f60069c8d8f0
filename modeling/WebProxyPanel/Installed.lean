import WebProxyPanel.Storage
import WebProxyPanel.Identity
/-!
# The paths of an installation

`Path` names the files that the operations write and read; `installed` is where they are. No two are
one file, and none is a temporary file of `atomic_write`.
-/

namespace WebProxyPanel
namespace Storage
open Effects Files

/-- `Paths` as they are unless the configuration says otherwise, with `shard_env_path` and the
candidates of `apply`. -/
def fileName : Path → String
  | .profiles => "/etc/webproxy/profiles.json"
  | .relayConfig => "/etc/webproxy/relay.json"
  | .shardEnv k => joinPath "/etc/webproxy/shards" (toString k ++ ".env")
  | .candidate p => fileName p ++ ".new"

theorem isDigit_of_mem_toString {n : Nat} {c : Char} (h : c ∈ (toString n).toList) :
    c.isDigit = true := by
  rw [Nat.toString_eq_ofList_toDigits, String.toList_ofList] at h
  exact Nat.isDigit_of_mem_toDigits (by decide) (by decide) h

theorem toString_negSucc (n : Nat) : toString (Int.negSucc n) = "-" ++ toString (n + 1) := rfl

theorem toString_int_inj {m n : Int} (h : toString m = toString n) : m = n := by
  have hsign : ∀ a b : Nat, toString (a : Int) ≠ toString (Int.negSucc b) := by
    intro a b hab
    have hl := congrArg String.toList hab
    rw [toString_natCast, toString_negSucc, String.toList_append] at hl
    have hmem : '-' ∈ (toString a).toList := by
      rw [hl]
      exact List.mem_append_left _ (by decide)
    have := isDigit_of_mem_toString hmem
    revert this
    decide
  cases m with
  | ofNat a =>
    cases n with
    | ofNat b => exact congrArg Int.ofNat (toString_inj h)
    | negSucc b => exact absurd h (hsign a b)
  | negSucc a =>
    cases n with
    | ofNat b => exact absurd h.symm (hsign b a)
    | negSucc b =>
      rw [toString_negSucc, toString_negSucc, String.append_right_inj] at h
      have := toString_inj h
      rw [Int.negSucc_inj]
      omega

theorem fileName_shardEnv (k : Int) :
    fileName (.shardEnv k) = "/etc/webproxy/shards/" ++ toString k ++ ".env" := by
  have hdir : joinPath "/etc/webproxy/shards" (toString k ++ ".env") = "/etc/webproxy/shards" ++
      "/" ++ (toString k ++ ".env") :=
    if_neg (by decide +kernel)
  rw [fileName, hdir, ← String.append_assoc]
  rfl

/-- The last character of a path tells what kind of file it is. -/
def lastChar : Path → Char
  | .profiles | .relayConfig => 'n'
  | .shardEnv _ => 'v'
  | .candidate _ => 'w'

theorem fileName_last (p : Path) : (fileName p).toList.getLast? = some (lastChar p) := by
  cases p with
  | profiles => decide +kernel
  | relayConfig => decide +kernel
  | shardEnv k =>
    rw [fileName_shardEnv, String.toList_append, List.getLast?_append]
    rfl
  | candidate p =>
    rw [fileName, String.toList_append, List.getLast?_append]
    rfl

theorem fileName_injective : Function.Injective fileName := by
  intro p
  induction p with
  | candidate p ih =>
    intro q h
    have hlast := fileName_last q
    rw [← h, fileName_last] at hlast
    cases q with
    | candidate q => exact congrArg Path.candidate (ih (String.append_left_inj _ |>.1 h))
    | _ => simp [lastChar] at hlast
  | shardEnv k =>
    intro q h
    have hlast := fileName_last q
    rw [← h, fileName_last] at hlast
    cases q with
    | shardEnv j =>
      rw [fileName_shardEnv, fileName_shardEnv, String.append_left_inj, String.append_right_inj]
        at h
      rw [toString_int_inj h]
    | _ => simp [lastChar] at hlast
  | profiles =>
    intro q h
    have hlast := fileName_last q
    rw [← h, fileName_last] at hlast
    cases q with
    | profiles => rfl
    | relayConfig => exact absurd h (by decide)
    | _ => simp [lastChar] at hlast
  | relayConfig =>
    intro q h
    have hlast := fileName_last q
    rw [← h, fileName_last] at hlast
    cases q with
    | relayConfig => rfl
    | profiles => exact absurd h (by decide)
    | _ => simp [lastChar] at hlast

theorem toString_int_head (k : Int) :
    ∃ c cs, (toString k).toList = c :: cs ∧ c ≠ '.' ∧ '/' ∉ c :: cs := by
  have hnat : ∀ n : Nat, ∃ c cs, (toString n).toList = c :: cs ∧ c ≠ '.' ∧ '/' ∉ c :: cs := by
    intro n
    cases hl : (toString n).toList with
    | nil =>
      rw [Nat.toString_eq_ofList_toDigits, String.toList_ofList] at hl
      exact absurd hl (Nat.toDigits_ne_nil)
    | cons c cs =>
      have hdigit : ∀ d ∈ c :: cs, d.isDigit = true := fun d hd => isDigit_of_mem_toString (hl ▸ hd)
      refine ⟨c, cs, rfl, ?_, fun hd => ?_⟩
      · rintro rfl
        exact absurd (hdigit _ List.mem_cons_self) (by decide)
      · exact absurd (hdigit _ hd) (by decide)
  cases k with
  | ofNat n => exact hnat n
  | negSucc n =>
    obtain ⟨c, cs, hl, -, hslash⟩ := hnat (n + 1)
    refine ⟨'-', c :: cs, ?_, by decide, ?_⟩
    · rw [toString_negSucc, String.toList_append, hl]
      rfl
    · rw [List.mem_cons, not_or]
      exact ⟨by decide, hslash⟩

/-- A path is a directory and a name that does not begin with a dot. -/
theorem fileName_split (p : Path) :
    ∃ dir base : String, fileName p = dir ++ base ∧ dir.toList.getLast? = some '/' ∧
    '/' ∉ base.toList ∧ ∃ c cs, base.toList = c :: cs ∧ c ≠ '.' := by
  induction p with
  | profiles =>
    exact ⟨"/etc/webproxy/",
      "profiles.json", by decide, by decide, by decide, 'p', "rofiles.json".toList, by decide, by decide⟩
  | relayConfig =>
    exact ⟨"/etc/webproxy/",
      "relay.json", by decide, by decide, by decide, 'r', "elay.json".toList, by decide, by decide⟩
  | shardEnv k =>
    obtain ⟨c, cs, hl, hc, hslash⟩ := toString_int_head k
    refine ⟨"/etc/webproxy/shards/", toString k ++ ".env",
      ?_, by decide, ?_, c, cs ++ ".env".toList, ?_, hc⟩
    · rw [fileName_shardEnv, String.append_assoc]
    · rw [String.toList_append, List.mem_append, hl, not_or]
      exact ⟨hslash, by decide⟩
    · rw [String.toList_append, hl]
      rfl
  | candidate p ih =>
    obtain ⟨dir, base, hp, hdir, hslash, c, cs, hbase, hc⟩ := ih
    refine ⟨dir, base ++ ".new", ?_, hdir, ?_, c, cs ++ ".new".toList, ?_, hc⟩
    · rw [fileName, hp, String.append_assoc]
    · rw [String.toList_append, List.mem_append, not_or]
      exact ⟨hslash, by decide⟩
    · rw [String.toList_append, hbase]
      rfl

/-- No path of an installation is that of a temporary file. -/
theorem isTemp_fileName (p : Path) : isTemp (fileName p) = false := by
  obtain ⟨dir, base, hp, hdir, hslash, c, cs, hbase, hc⟩ := fileName_split p
  unfold isTemp
  rw [hp, basename_append hslash (Or.inr hdir), hbase]
  have hdot : tempPrefix.toList = '.' :: "tmp-".toList := by decide
  rw [hdot, List.isPrefixOf_cons_cons]
  simp [hc.symm]

/-- The paths of an installation, none of which `mkstemp` makes. -/
def installed (p : Path) : RealPath := ⟨fileName p, isTemp_fileName p⟩

theorem installed_injective : Function.Injective installed :=
  fun _ _ h => fileName_injective (congrArg Subtype.val h)

end Storage
end WebProxyPanel
