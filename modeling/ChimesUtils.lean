import ChimesUtils.Lib.Rewrite
import ChimesUtils.Lib.Marked
import ChimesUtils.Lib.Token
import ChimesUtils.Lib.Renumber
import ChimesUtils.Lib.Places
import ChimesUtils.Rust
import ChimesUtils.Column
import ChimesUtils.Dynamical.Rbatis
import ChimesUtils.Dynamical.Wrapper
import ChimesUtils.Dynamical.Chain
import ChimesUtils.Dynamical.Values
import ChimesUtils.Dynamical.Draft
import ChimesUtils.Dynamical.Numbering
import ChimesUtils.Dynamical.Placeholders
import ChimesUtils.Dynamical.Intercept
import ChimesUtils.Dynamical.Quoted
import ChimesUtils.Dynamical.Like
import ChimesUtils.Dynamical.Push
import ChimesUtils.Dynamical.Clauses
import ChimesUtils.Dynamical.Connectives
import ChimesUtils.Dynamical.Rows
import ChimesUtils.Dynamical.Meaning
import ChimesUtils.Dynamical.Linking
import ChimesUtils.Dynamical.Sent
import ChimesUtils.Dynamical.Trim
import ChimesUtils.Lib.Mutex
import ChimesUtils.Lib.Run
import ChimesUtils.Lib.Ledger
import ChimesUtils.Lib.Identifier
import ChimesUtils.Lib.Line
import ChimesUtils.Lib.Upsert
import ChimesUtils.Lib.Like
import ChimesUtils.Lib.Words
import ChimesUtils.Lib.Where
import ChimesUtils.Lib.Clause
import ChimesUtils.GlobalData.AppData
import ChimesUtils.GlobalData.Ttl
import ChimesUtils.GlobalData.Interleaving
import ChimesUtils.Queue.Model
import ChimesUtils.Queue.Full
import ChimesUtils.Queue.Worker
import ChimesUtils.Queue.Start
import ChimesUtils.Queue.Pass
import ChimesUtils.Queue.Account
import ChimesUtils.Queue.Atomic
import ChimesUtils.Queue.Due
import ChimesUtils.Queue.Handled
import ChimesUtils.Queue.Handlers
import ChimesUtils.Queue.Registered
import ChimesUtils.Wechat.Token
import ChimesUtils.Wechat.Transparent
import ChimesUtils.Wechat.Current
import ChimesUtils.Redis.Client
import ChimesUtils.WebSocket.Account
import ChimesUtils.WebSocket.Client
import ChimesUtils.WebSocket.Order
import ChimesUtils.Mail.Account
import ChimesUtils.Mail.Workers
import ChimesUtils.Mail.Queue
import ChimesUtils.Database.Multiple
import ChimesUtils.Gateway.Table
import ChimesUtils.Search.CommonSearch
import ChimesUtils.Search.Conditions
import ChimesUtils.Search.Shape
import ChimesUtils.Lib.Percent
import ChimesUtils.Lib.Pairs
import ChimesUtils.Url.Query
import ChimesUtils.Url.Encode
import ChimesUtils.Lib.Ternary
import ChimesUtils.Search.Ranges
import ChimesUtils.Search.Complement
import ChimesUtils.Dynamical.Entries
import ChimesUtils.Wechat.Expiry
import ChimesUtils.GlobalData.Resizing
import ChimesUtils.GlobalData.Overflow
import ChimesUtils.Numerals
import ChimesUtils.Json
import ChimesUtils.Wechat.Decode
import ChimesUtils.GlobalData.FromStr
import ChimesUtils.Gateway.Info
import ChimesUtils.Config.Yaml
import ChimesUtils.Gateway.Register
import ChimesUtils.Gateway.Tasks
import ChimesUtils.Lib.Shuffle
import ChimesUtils.Gateway.Health
import ChimesUtils.Http.Charset
import ChimesUtils.Http.Client
import ChimesUtils.Gateway.Posted
import ChimesUtils.WebSocket.Drain
import ChimesUtils.Queue.Spacing
import ChimesUtils.Database.Links
import ChimesUtils.Lib.Fields
import ChimesUtils.Linux.Stat
import ChimesUtils.Lib.Positional
import ChimesUtils.GlobalData.Codes
import ChimesUtils.GlobalData.Random
import ChimesUtils.Performance.Counter
import ChimesUtils.Linux.NetDev
import ChimesUtils.File.Hash
import ChimesUtils.Lib.Base64
import ChimesUtils.Script.Base64
import ChimesUtils.Lib.Rounding
import ChimesUtils.Float
import ChimesUtils.File.Size
import ChimesUtils.Html.Breaks
import ChimesUtils.GlobalData.Decimal
import ChimesUtils.GlobalData.Money
import ChimesUtils.Lib.Rsa
import ChimesUtils.GlobalData.Rsa
import ChimesUtils.Linux.Times
import ChimesUtils.Performance.Info
