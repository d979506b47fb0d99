import LocalTrans.Protocol

/-!
# Errors and progress of transfers

The errors a transfer can end with and the texts they are shown with, and the progress events a
transfer reports to the shell. Of the progress events only those of pushes and receives are here;
the display of speeds and sender rows is not modelled.
-/

namespace LocalTrans

/-- `EngineError`, with the text of an input/output or manifest error. -/
inductive EngineError where
  | hashMismatch (chunk : Nat)
  | incomplete
  | io (text : String)
  | manifest (text : String)
  | timeout
  | sessionNotFound
  | rpc (text : String)
  | protocol (text : String)
  | offerRejected
  | offerTimeout
  | cancelled
deriving DecidableEq, Repr

/-- How an error is displayed. -/
def EngineError.text : EngineError → String
  | .hashMismatch chunk => "分块 " ++ toString chunk ++ " 哈希不匹配"
  | .incomplete => "传输未完成，所有分块未全部接收"
  | .io text => "IO 错误: " ++ text
  | .manifest text => "Manifest 错误: " ++ text
  | .timeout => "操作超时"
  | .sessionNotFound => "会话不存在"
  | .rpc text => "RPC 控制面错误: " ++ text
  | .protocol text => "块流协议错误: " ++ text
  | .offerRejected => "推送请求被对方拒绝"
  | .offerTimeout => "对方超时未确认"
  | .cancelled => "任务已取消"

/-- `ProgressEvent`: what a transfer reports about a job. -/
inductive ProgressEvent where
  | started (jobId : Nat) (name : String) (total : Nat)
  | chunkDone (jobId chunk bytes : Nat)
  | done (jobId : Nat)
  | failed (jobId : Nat) (reason : String)
  | resumed (jobId alreadyBytes : Nat)
  | instantHit (jobId : Nat) (name : String) (total : Nat)
deriving DecidableEq, Repr

/-- `SMALL_FILE_LIMIT`: files of up to 1 MiB are pushed in one stream. -/
def smallFileLimit : Nat := 1024 * 1024

end LocalTrans
