import Stdb.Common
import Stdb.ReadBuffer
import Stdb.ReadBufferRefinement
import Stdb.ReadBufferBounds
import Stdb.NBTree
import Stdb.ColumnStore
import Stdb.ColumnStoreSession
import Stdb.ColumnStoreQuery
import Stdb.CLib
import Stdb.OpenTSDB
import Stdb.OpenTSDBPut
import Stdb.OpenTSDBSkip
import Stdb.RESPStream
import Stdb.RESP
import Stdb.RESPDict
import Stdb.RESPWorker
import Stdb.RESPPush
import Stdb.RESPLog
import Stdb.RESPRetry
import Stdb.RESPChunks
import Stdb.RESPEncode
import Stdb.RESPSession
import Stdb.ColumnStoreClose
import Stdb.OpenTSDBRun
import Stdb.ColumnStoreLogs
