import Vfast.Auth
import Vfast.Lib.Keyed

/-! The token store (`user.c`): a hash table of session nodes by token. The verdict of the
RADIUS server and the bytes of `/dev/urandom` are arguments of a login. -/

namespace Vfast.User

open Bytes Keyed Auth

inductive VfRole where
  | guest
  | user
  | admin
  deriving DecidableEq, Repr

structure VfUser where
  name : Block 32
  role : VfRole
  deriving DecidableEq

structure VfNode where
  token : Block 16
  user : VfUser
  expire : Int
  deriving DecidableEq

/-- `g_user_mgr`. -/
structure UserMgr where
  userNode : List VfNode
  deriving DecidableEq

def tokenInter : Int := 3600

def tokenMin : Int := 900

/-- The user record of a login: `strncpy` of 31 bytes into a zeroed field. -/
def userRecord (user : List UInt8) : VfUser :=
  ⟨Block.ofList 32 ((user.takeWhile fun b => b ≠ 0).take 31), .user⟩

/-- `vf_user_login`: the return code and `tk_out`. `radius` is the result of
`vf_radius_authenticate`, `draw` what is read from `/dev/urandom`. -/
def vfUserLogin (g : UserMgr) (user pass : Option (List UInt8)) (radius : Int)
    (draw : Option (Block 16)) (now : Int) : UserMgr × Int × Option (Block 16) :=
  match user, pass with
  | some user, some _ =>
    if radius ≠ 0 then (g, -2, none)
    else
      match draw with
      | none => (g, -3, none)
      | some tk =>
        ({ g with userNode := hashAdd g.userNode ⟨tk, userRecord user, now + tokenInter⟩ }, 0,
          some tk)
  | _, _ => (g, -3, none)

def extend (now : Int) (s : VfNode) : VfNode :=
  if s.expire - now < tokenMin then { s with expire := now + tokenInter } else s

/-- `vf_user_verify_pkt`: the user record if it returns true. -/
def vfUserVerifyPkt (g : UserMgr) (pkt : Option VpnAuth) (now : Int) : UserMgr × Option VfUser :=
  match pkt with
  | none => (g, none)
  | some pkt =>
    if pkt.magic ≠ vfastMagic then (g, none)
    else
      match hashFind VfNode.token g.userNode pkt.token with
      | none => (g, none)
      | some s =>
        if now ≤ s.expire then
          ({ g with userNode := hashModify VfNode.token g.userNode pkt.token (extend now) },
            some s.user)
        else (g, none)

def vfUserLogout (g : UserMgr) (token : Option (Block 16)) : UserMgr × Int :=
  match token with
  | none => (g, -1)
  | some token =>
    match hashFind VfNode.token g.userNode token with
    | none => (g, -1)
    | some _ => ({ g with userNode := hashRemove VfNode.token g.userNode token }, 0)

def vfUserCleanExpired (g : UserMgr) (now : Int) : UserMgr :=
  { g with userNode := g.userNode.filter fun n => !decide (now > n.expire) }

/-! ## Records of the codec -/

/-- **A packed record is never accepted**: `vf_auth_pack` stores the magic number in network
order, `vf_user_verify_pkt` compares it in host order. -/
theorem packed_token_rejected (g : UserMgr) (vip : UInt32) (token : Option (Block 16))
    (keyId : UInt32) (initKey : Option (Block 32)) (ts clock : UInt64) (now : Int) :
    vfUserVerifyPkt g (some (vfAuthPack vip token keyId initKey ts clock)) now = (g, none) := by
  have hmagic : bswap32 vfastMagic ≠ vfastMagic := by decide
  simp [vfUserVerifyPkt, vfAuthPack, hmagic]

/-- **A token is issued and refused in the same second**, though it is in the store. -/
theorem issued_token_refused :
    ∃ g token, vfUserLogin ⟨[]⟩ (some [0x61]) (some [0x62]) 0 (some fun _ => 7) 1000 =
        (g, 0, some token) ∧
      (∃ n ∈ g.userNode, n.token = token ∧ 1000 ≤ n.expire) ∧
      vfUserVerifyPkt g (some (vfAuthPack 0x0200000A (some token) 1 none 1 0)) 1000 = (g, none) :=
  ⟨_, _, rfl, ⟨_, List.mem_cons_self, rfl, by decide⟩, by decide⟩

end Vfast.User
